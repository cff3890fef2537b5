import LayerLint.Proofs.Discovery.Aliases
import LayerLint.Proofs.Discovery.Marker

/-! # What is discovered for a directory

The aliases of an absolute directory are those of the one chain that starts at its marker. Together
with their order this leaves no choice, so that the search is described in full: it gives what the
marker, the chain and the aliases are defined to be, and nothing else, whatever the files say.
-/

namespace LayerLint.Discovery

open CompilerSettings (IsChain IsAlias IsVisited)

variable {tree : FileTree} {start marker : Path} {found other : Discovery}

/-- What is there to be discovered for a directory. -/
structure IsDiscovery (tree : FileTree) (start : Path) (found : Discovery) : Prop where
  source_eq_some_iff : ∀ marker, found.source = some marker ↔ IsMarker tree start marker
  isOrdered : found.aliases.IsOrdered
  mem_aliases_iff : ∀ key base, ⟨key, base⟩ ∈ found.aliases.entries ↔
    key ≠ "" ∧ ∃ marker chain, IsMarker tree start marker ∧ IsChain tree marker chain ∧
      IsAlias tree chain key base

theorem IsDiscovery.eq (h : IsDiscovery tree start found) (h' : IsDiscovery tree start other) :
    found = other := by
  have hsource : found.source = other.source := by
    apply Option.ext
    intro marker
    rw [h.source_eq_some_iff, h'.source_eq_some_iff]
  have haliases : found.aliases = other.aliases := by
    apply h.isOrdered.eq_of_mem_iff h'.isOrdered
    rintro ⟨key, base⟩
    rw [h.mem_aliases_iff, h'.mem_aliases_iff]
  cases found
  cases other
  exact congrArg₂ Discovery.mk hsource haliases

/-- The settings that are read from a marker on are those of a chain, and hand its aliases down. -/
theorem exists_isChain (tree : FileTree) (habsolute : marker.isAbsolute = true)
    (hnormal : marker.normalize = marker) :
    ∃ chain, IsChain tree marker chain ∧ CompilerSettings.HandsDown tree chain
      ((CompilerSettings.chain tree tree.size [] marker).foldr CompilerSettings.extend
        (none, .empty)) := by
  have hvisited : IsVisited tree [] := CompilerSettings.isVisited_nil
  obtain ⟨chain, hmeets, hread⟩ := CompilerSettings.exists_meets_chain hvisited (Nat.zero_add _)
    (hnormal.symm ▸ habsolute)
  rw [hnormal] at hmeets
  rw [hread]
  exact ⟨chain, hmeets.isChain, CompilerSettings.handsDown_foldr hmeets.readable
    (hmeets.isAbsolute_directoryOf habsolute hnormal)⟩

theorem isDiscovery_ofDirectory (tree : FileTree) (h : start.isAbsolute = true) :
    IsDiscovery tree start (ofDirectory tree start) := by
  unfold ofDirectory
  cases hmarker : marker? tree start with
  | none =>
      have hnone (marker : Path) : ¬ IsMarker tree start marker := by
        rw [← marker?_eq_some_iff h, hmarker]
        exact (Option.some_ne_none marker).symm
      refine ⟨?_, AliasTable.isOrdered_empty, ?_⟩
      · intro marker
        simp [hnone]
      · intro key base
        simp [AliasTable.empty, hnone]
  | some marker =>
      have hsource (other : Path) : IsMarker tree start other ↔ marker = other := by
        rw [← marker?_eq_some_iff h, hmarker, Option.some.injEq]
      obtain ⟨habsolute, hnormal⟩ := ((hsource marker).mpr rfl).isAbsolute_and_normal h
      obtain ⟨chain, hchain, hhands⟩ := exists_isChain tree habsolute hnormal
      refine ⟨?_, hhands.isOrdered, ?_⟩
      · intro other
        exact Option.some_inj.trans (hsource other).symm
      · intro key base
        refine (hhands.mem_iff ⟨key, base⟩).trans (and_congr_right fun _ => ⟨?_, ?_⟩)
        · intro halias
          exact ⟨marker, chain, (hsource marker).mpr rfl, hchain, halias⟩
        · rintro ⟨other, others, hother, hothers, halias⟩
          obtain rfl := (hsource other).mp hother
          rwa [hchain.eq hothers]

/-- One chain starts at the marker of an absolute directory, and what the search gives is what the
marker, the chain and its aliases are defined to be. -/
theorem ofDirectory_eq_iff (tree : FileTree) (h : start.isAbsolute = true) :
    (∀ marker, IsMarker tree start marker → ∃! chain, IsChain tree marker chain) ∧
      ∀ found, ofDirectory tree start = found ↔ IsDiscovery tree start found := by
  constructor
  · intro marker hmarker
    obtain ⟨habsolute, hnormal⟩ := hmarker.isAbsolute_and_normal h
    obtain ⟨chain, hchain, -⟩ := exists_isChain tree habsolute hnormal
    exact ⟨chain, hchain, fun _ hother => hother.eq hchain⟩
  · intro found
    constructor
    · rintro rfl
      exact isDiscovery_ofDirectory tree h
    · exact (isDiscovery_ofDirectory tree h).eq

/-- Two files that extend each other. The first one gives a target to one key, the second one to
that key and another. The second one spells the path of the first another way, and names the
directory that the targets of both start from. -/
def circle : FileTree :=
  let first := "\x7b\"extends\":\"./b/c\",\"compilerOptions\":" ++
    "\x7b\"paths\":\x7b\"~\":[0,\"own\"]\x7d\x7d\x7d"
  let second := "\x7b\"extends\":\"../b/../tsconfig.json\",\"compilerOptions\":" ++
    "\x7b\"baseUrl\":\"d\",\"paths\":\x7b\"~\":\"other\",\"@\":\"home\"\x7d\x7d\x7d"
  .directory [("tsconfig.json", .file first.toUTF8),
    ("b", .directory [("c.json", .file second.toUTF8)])]

theorem ofDirectory_circle : Path.isAbsolute ⟨"/b"⟩ = true ∧
    IsDiscovery circle ⟨"/b"⟩
      ⟨some ⟨"/tsconfig.json"⟩, ⟨[⟨"@", "/b/d/home"⟩, ⟨"~", "/b/d/own"⟩]⟩⟩ := by
  have habsolute : Path.isAbsolute ⟨"/b"⟩ = true := by decide
  have hsource : (ofDirectory circle ⟨"/b"⟩).source = some ⟨"/tsconfig.json"⟩ := by
    decide +kernel
  have haliases : (ofDirectory circle ⟨"/b"⟩).aliases =
      ⟨[⟨"@", "/b/d/home"⟩, ⟨"~", "/b/d/own"⟩]⟩ := by decide +kernel
  refine ⟨habsolute, ((ofDirectory_eq_iff circle habsolute).2 _).mp ?_⟩
  exact congrArg₂ Discovery.mk hsource haliases

end LayerLint.Discovery
