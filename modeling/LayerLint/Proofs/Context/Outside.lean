import LayerLint.Proofs.Context.View
import LayerLint.Proofs.Path.Order
import LayerLint.Proofs.Path.Relative

/-! # Files outside layers

A file directly in a directory that is named like a layer has that layer on its path, because the
directory lies below the root. So the listings that rules look at show files below layers only, and
all other files could as well be absent.
-/

namespace LayerLint.Context

variable {context : Context} {directory file : Path} {layer name : String}

/-- A file in a layer directory below the root is below a layer. -/
theorem inLayerScope_of_entry? (hbelow : context.root.IsBelow directory)
    (hnamed : directory.fileName? = some layer) (hlayer : layer ∈ context.config.layerDirs)
    (hslash : '/' ∉ layer.toList) (hbackslash : '\\' ∉ layer.toList)
    (hentry : file.entry? = some (directory.key, name)) :
    context.inLayerScope (context.relative file) = true := by
  obtain ⟨rest, hrest, hdirectory⟩ := hbelow
  have hends := Path.components_of_fileName? hnamed
  have hfile := Path.normalComponents_of_concat (Path.components_of_entry? hentry)
  rw [← Path.normalComponents, hdirectory, List.append_assoc] at hfile
  rw [Path.normalComponents_of_concat hends] at hdirectory
  have hlast : rest.getLast? = some (.name layer) := by
    rw [← List.getLast?_append_of_ne_nil _ hrest, ← hdirectory, List.getLast?_concat]
  have hempty : layer ≠ "" := by
    have hmem : Path.Component.name layer ∈ directory.components := by
      rw [hends]
      simp
    exact (Path.isName_of_mem_components hmem).1
  have hsegment := Path.mem_segments_relativeTo hfile
    (List.mem_append_left _ (List.mem_of_getLast? hlast)) hempty hslash hbackslash
  exact List.any_eq_true.mpr ⟨layer, hsegment, by simpa using hlayer⟩

/-- The context with these texts, files and directories. -/
def walked (context : Context) (texts : List (Path.Key × String)) (files directories : List Path) :
    Context :=
  { context with texts }.withEntries files directories

variable {texts texts' : List (Path.Key × String)} {files files' directories : List Path}

theorem mem_candidates_walked :
    file ∈ (context.walked texts files directories).candidates ↔
      file ∈ files ∧ context.inLayerScope (context.relative file) = true := by
  rw [candidates, List.mem_filter]
  exact and_congr_left fun _ => (Path.perm_sort files).mem_iff

theorem candidates_walked_perm (context : Context) (texts : List (Path.Key × String))
    (files directories : List Path) :
    (context.walked texts files directories).candidates.Perm
      (files.filter fun file => context.inLayerScope (context.relative file)) :=
  (Path.perm_sort files).filter _

/-- Files in normal form are listed in one order, and so are those of them below layers. -/
theorem candidates_walked_eq (hnormal : ∀ file ∈ files, file.normalize = file)
    (h : (context.walked texts files directories).candidates.Perm
      (context.walked texts' files' directories).candidates) :
    (context.walked texts files directories).candidates =
      (context.walked texts' files' directories).candidates := by
  refine Path.eq_of_perm_of_pairwise ?_ ((Path.pairwise_sort files).filter _)
    ((Path.pairwise_sort files').filter _) h
  intro file hfile
  exact hnormal file (mem_candidates_walked.mp hfile).1

theorem children?_walked_eq
    (hmem : ∀ file, file ∈ (context.walked texts files directories).candidates ↔
      file ∈ (context.walked texts' files' directories).candidates)
    (hwalked : directory ∈ (context.walked texts files directories).directories)
    (hinside : ∀ name file, file.entry? = some (directory.key, name) →
      context.inLayerScope (context.relative file) = true) :
    (context.walked texts files directories).children? directory =
      (context.walked texts' files' directories).children? directory := by
  obtain ⟨children, hchildren, hdirectories, hfiles⟩ :=
    Listing.shows_ofPaths (Path.sort files) hwalked
  obtain ⟨children', hchildren', hdirectories', hfiles'⟩ :=
    Listing.shows_ofPaths (Path.sort files') hwalked
  have hsame : children = children' := by
    apply Children.eq_of_names
    · intro name
      rw [hdirectories, hdirectories']
    · intro name
      rw [hfiles, hfiles']
      refine exists_congr fun file => and_congr_left fun hin => ?_
      have hscope := hinside name file hin
      have hiff := hmem file
      rwa [mem_candidates_walked, mem_candidates_walked, and_iff_left hscope, and_iff_left hscope,
        ← (Path.perm_sort files).mem_iff, ← (Path.perm_sort files').mem_iff] at hiff
  change (Listing.ofPaths _ _).children? directory = (Listing.ofPaths _ _).children? directory
  rw [Listing.children?, Listing.children?]
  exact (hchildren.trans (hsame ▸ rfl)).trans hchildren'.symm

/-- Contexts with the same files below layers, and the same texts of these, look alike. -/
theorem walked_looksLike
    (hroot : ∀ name, context.root.fileName? = some name → name ∉ context.config.layerDirs)
    (hlayers : ∀ layer ∈ context.config.layerDirs, '/' ∉ layer.toList ∧ '\\' ∉ layer.toList)
    (hdirectories : ∀ directory ∈ directories,
      directory.components = context.root.components ∨ context.root.IsBelow directory)
    (hcandidates : (context.walked texts files directories).candidates =
      (context.walked texts' files' directories).candidates)
    (htexts : ∀ file ∈ (context.walked texts files directories).candidates,
      (context.walked texts files directories).text file =
        (context.walked texts' files' directories).text file) :
    (context.walked texts files directories).LooksLike
      (context.walked texts' files' directories) where
  root := rfl
  config := rfl
  ranks := rfl
  aliases := rfl
  directories := rfl
  candidates := hcandidates
  text := htexts
  children := by
    intro directory hdirectory
    obtain ⟨hwalked, hnamed⟩ := List.mem_filter.mp hdirectory
    obtain ⟨layer, hlayer, hmem⟩ := (Option.any_eq_true _ _).mp hnamed
    rw [List.contains_iff_mem] at hmem
    obtain ⟨hslash, hbackslash⟩ := hlayers layer hmem
    have hbelow : context.root.IsBelow directory := by
      rcases hdirectories directory ((Path.perm_sort directories).mem_iff.mp hwalked) with heq | h
      · have hnot := hroot layer (by rw [← hlayer, Path.fileName?, Path.fileName?, heq])
        exact (hnot hmem).elim
      · exact h
    refine children?_walked_eq (fun file => by rw [hcandidates]) hwalked ?_
    intro name file hentry
    exact inLayerScope_of_entry? hbelow hlayer hmem hslash hbackslash hentry

end LayerLint.Context
