import LayerLint.Discovery
import LayerLint.Proofs.FileTree
import Mathlib.Data.List.Chain

/-! # Chains of compiler settings

A chain goes from one file to the file that it extends, and stops before a file that is on it
already or cannot be read. Each file of a chain is at another place of the tree, so that a chain
ends before the steps that are allowed for it run out, even if files extend each other in a circle
and whatever their references look like.
-/

namespace LayerLint

theorem Json.string?_eq_some_iff {value : Json} {text : String} :
    value.string? = some text ↔ value = .string text := by
  cases value <;> simp [Json.string?]

namespace CompilerSettings

variable {tree : FileTree} {path next parent : Path} {visited chain others : List Path}
variable {value : Json}

/-- What is written in a file, if it can be read and understood. -/
def document? (tree : FileTree) (path : Path) : Option Json :=
  (tree.text? path).bind fun text => Json.parse? (Json.stripComments text)

/-- The directory of a file. -/
def directoryOf (path : Path) : Path :=
  path.parent?.getD ⟨""⟩

/-- The reference begins like a relative path, and leads from the directory to the file. -/
def LeadsTo (directory : Path) (reference : String) (file : Path) : Prop :=
  (Text.beginsWith "./" reference = true ∨ Text.beginsWith "../" reference = true) ∧
    file = Path.normalize (
      if (directory.join ⟨reference⟩).fileName?.map FileName.extension = some ".json" then
        directory.join ⟨reference⟩
      else ⟨(directory.join ⟨reference⟩).text ++ ".json"⟩)

/-- The settings in one file say that they extend those in the other. -/
def Extends (tree : FileTree) (path next : Path) : Prop :=
  ∃ value reference, document? tree path = some value ∧
    value.get? "extends" = some (.string reference) ∧ LeadsTo (directoryOf path) reference next

/-- The files from the first one on, each of which extends the next, up to a file that is on the
chain or cannot be read. -/
structure IsChain (tree : FileTree) (first : Path) (chain : List Path) : Prop where
  starts : chain.head? = if (document? tree first).isSome then some first else none
  readable : ∀ path ∈ chain, (document? tree path).isSome = true
  follows : chain.IsChain (Extends tree)
  nodup : chain.Nodup
  ends : ∀ last next, chain.getLast? = some last → Extends tree last next →
    next ∈ chain ∨ document? tree next = none

/-! ## One file -/

theorem read?_eq_map (tree : FileTree) (path : Path) :
    read? tree path = (document? tree path).map (ofJson (directoryOf path)) := by
  unfold read? document?
  cases tree.text? path with
  | none => rfl
  | some text =>
      simp only [Option.bind_eq_bind, Option.bind_some]
      cases Json.parse? (Json.stripComments text) <;> rfl

theorem leadsTo_iff {directory : Path} {reference : String} :
    LeadsTo directory reference next ↔
      ∃ parent, parentPath? directory reference = some parent ∧ next = parent.normalize := by
  unfold LeadsTo parentPath?
  rw [← Bool.or_eq_true]
  by_cases hrelative : (Text.beginsWith "./" reference || Text.beginsWith "../" reference) = true
  · rw [and_iff_right hrelative, if_pos hrelative]
    dsimp only
    split <;> simp only [Option.some.injEq, exists_eq_left']
  · simp [hrelative]

theorem extends_iff (h : document? tree path = some value) :
    Extends tree path next ↔
      ∃ parent, (ofJson (directoryOf path) value).parent = some parent ∧
        next = parent.normalize := by
  have hparent : (ofJson (directoryOf path) value).parent =
      ((value.get? "extends").bind Json.string?).bind (parentPath? (directoryOf path)) := rfl
  rw [hparent]
  constructor
  · rintro ⟨value', reference, hvalue, hreference, hleads⟩
    obtain rfl := Option.some.inj (h.symm.trans hvalue)
    obtain ⟨parent, hparent, hnext⟩ := leadsTo_iff.mp hleads
    refine ⟨parent, ?_, hnext⟩
    rw [hreference]
    exact hparent
  · rintro ⟨parent, hparent, hnext⟩
    obtain ⟨reference, hreference, hleads⟩ := Option.bind_eq_some_iff.mp hparent
    obtain ⟨written, hwritten, hstring⟩ := Option.bind_eq_some_iff.mp hreference
    obtain rfl := Json.string?_eq_some_iff.mp hstring
    exact ⟨value, reference, h, hwritten, leadsTo_iff.mpr ⟨parent, hleads, hnext⟩⟩

theorem Extends.eq (h : Extends tree path next) (h' : Extends tree path parent) :
    next = parent := by
  obtain ⟨value, reference, hvalue, hreference, -, hnext⟩ := h
  obtain ⟨value', reference', hvalue', hreference', -, hparent⟩ := h'
  obtain rfl := Option.some.inj (hvalue.symm.trans hvalue')
  obtain rfl := Json.string.inj (Option.some.inj (hreference.symm.trans hreference'))
  rw [hnext, hparent]

theorem Extends.normalize_eq (h : Extends tree path next) : next.normalize = next := by
  obtain ⟨_, _, -, -, hleads⟩ := h
  rw [hleads.2, Path.normalize_normalize]

theorem Extends.isAbsolute (h : Extends tree path next)
    (hdirectory : (directoryOf path).isAbsolute = true) : next.isAbsolute = true := by
  obtain ⟨_, reference, -, -, hleads⟩ := h
  rw [hleads.2]
  apply Path.isAbsolute_normalize
  have hjoin := Path.isAbsolute_join hdirectory ⟨reference⟩
  split
  · exact hjoin
  · obtain ⟨rest, hrest⟩ := Text.beginsWith_iff.mp hjoin
    refine Text.beginsWith_iff.mpr ⟨rest ++ ".json", ?_⟩
    rw [hrest, String.append_assoc]

theorem exists_find?_of_readable (h : (document? tree path).isSome = true) :
    ∃ bytes, tree.find? path = some (.file bytes) := by
  obtain ⟨value, hvalue⟩ := Option.isSome_iff_exists.mp h
  obtain ⟨text, htext, -⟩ := Option.bind_eq_some_iff.mp hvalue
  obtain ⟨bytes, hbytes, -⟩ := Option.bind_eq_some_iff.mp htext
  unfold FileTree.bytes? at hbytes
  split at hbytes
  next bytes hfind => exact ⟨bytes, hfind⟩
  next => cases hbytes

/-- The root is no file, so each file that can be read has a directory. -/
theorem isAbsolute_directoryOf (habsolute : path.isAbsolute = true)
    (hnormal : path.normalize = path) (h : (document? tree path).isSome = true) :
    (directoryOf path).isAbsolute = true := by
  obtain ⟨names, hnames, heq⟩ := Path.exists_normalize_eq_ofNames habsolute
  rw [hnormal] at heq
  subst heq
  rcases names.eq_nil_or_concat' with rfl | ⟨above, last, rfl⟩
  · obtain ⟨bytes, hfind⟩ := exists_find?_of_readable h
    -- a path that ends in a slash leads to a directory or nowhere
    have hslash : (Text.beforeEnd? "/" (Path.ofNames []).text).isSome = true := by decide
    unfold FileTree.find? at hfind
    rw [hslash] at hfind
    split at hfind
    · exact (Bool.false_ne_true (Option.filter_eq_some_iff.mp hfind).2).elim
    · cases hfind
  · rw [List.forall_mem_append, List.forall_mem_singleton] at hnames
    rw [directoryOf, Path.parent?_ofNames_concat hnames.1 hnames.2]
    exact Path.isAbsolute_ofNames above

/-! ## Going from file to file -/

/-- The files met from a path on, when some have been visited before. -/
inductive Meets (tree : FileTree) : List Path → Path → List Path → Prop where
  | stop {visited : List Path} {path : Path}
      (h : path ∈ visited ∨ document? tree path = none) : Meets tree visited path []
  | last {visited : List Path} {path : Path} (hfresh : path ∉ visited)
      (hreadable : (document? tree path).isSome = true)
      (hlast : ∀ next, ¬ Extends tree path next) : Meets tree visited path [path]
  | step {visited : List Path} {path next : Path} {chain : List Path} (hfresh : path ∉ visited)
      (hreadable : (document? tree path).isSome = true) (hnext : Extends tree path next)
      (hrest : Meets tree (path :: visited) next chain) : Meets tree visited path (path :: chain)

/-- Files that may have been visited: they are at different places of the tree. -/
structure IsVisited (tree : FileTree) (visited : List Path) : Prop where
  nodup : visited.Nodup
  absolute : ∀ path ∈ visited, path.isAbsolute = true
  normal : ∀ path ∈ visited, path.normalize = path
  readable : ∀ path ∈ visited, (document? tree path).isSome = true

theorem isVisited_nil : IsVisited tree [] := by
  constructor <;> simp

theorem IsVisited.cons (h : IsVisited tree visited) (hfresh : path ∉ visited)
    (habsolute : path.isAbsolute = true) (hnormal : path.normalize = path)
    (hreadable : (document? tree path).isSome = true) : IsVisited tree (path :: visited) where
  nodup := List.nodup_cons.mpr ⟨hfresh, h.nodup⟩
  absolute := List.forall_mem_cons.mpr ⟨habsolute, h.absolute⟩
  normal := List.forall_mem_cons.mpr ⟨hnormal, h.normal⟩
  readable := List.forall_mem_cons.mpr ⟨hreadable, h.readable⟩

theorem IsVisited.length_le (h : IsVisited tree visited) : visited.length ≤ tree.size := by
  apply FileTree.length_le_size h.nodup h.absolute h.normal
  intro path hpath
  obtain ⟨bytes, hfind⟩ := exists_find?_of_readable (h.readable path hpath)
  rw [hfind]
  rfl

/-- The steps are enough to go from file to file up to the end. -/
theorem exists_meets_chain {steps : Nat} (h : IsVisited tree visited)
    (hsteps : visited.length + steps = tree.size)
    (habsolute : path.normalize.isAbsolute = true) :
    ∃ met, Meets tree visited path.normalize met ∧
      CompilerSettings.chain tree steps visited path = met.filterMap (read? tree) := by
  induction steps generalizing visited path with
  | zero =>
      refine ⟨[], .stop ?_, rfl⟩
      apply Classical.byContradiction
      rw [not_or, ← ne_eq, Option.ne_none_iff_isSome]
      rintro ⟨hfresh, hreadable⟩
      have hlength :=
        (h.cons hfresh habsolute (Path.normalize_normalize path) hreadable).length_le
      rw [List.length_cons] at hlength
      omega
  | succ steps ih =>
      rw [CompilerSettings.chain]
      by_cases hvisited : path.normalize ∈ visited
      · refine ⟨[], .stop (.inl hvisited), ?_⟩
        rw [if_pos (List.contains_iff_mem.mpr hvisited)]
        rfl
      rw [if_neg (by simpa using hvisited)]
      have hread := read?_eq_map tree path.normalize
      cases hdocument : document? tree path.normalize with
      | none =>
          rw [hread, hdocument]
          exact ⟨[], .stop (.inr hdocument), rfl⟩
      | some value =>
          have hreadable : (document? tree path.normalize).isSome = true :=
            Option.isSome_of_mem hdocument
          have hnormal := Path.normalize_normalize path
          rw [hdocument, Option.map_some] at hread
          rw [hread]
          dsimp only
          cases hparent : (ofJson (directoryOf path.normalize) value).parent with
          | none =>
              refine ⟨[path.normalize], .last hvisited hreadable ?_, ?_⟩
              · intro next hextends
                obtain ⟨parent, hsome, -⟩ := (extends_iff hdocument).mp hextends
                rw [hparent] at hsome
                cases hsome
              · simp [hread]
          | some parent =>
              have hextends : Extends tree path.normalize parent.normalize :=
                (extends_iff hdocument).mpr ⟨parent, hparent, rfl⟩
              have hlength : (path.normalize :: visited).length + steps = tree.size := by
                rw [List.length_cons]
                omega
              obtain ⟨met, hmeets, heq⟩ := ih (h.cons hvisited habsolute hnormal hreadable)
                hlength (hextends.isAbsolute (isAbsolute_directoryOf habsolute hnormal hreadable))
              refine ⟨path.normalize :: met, .step hvisited hreadable hextends hmeets, ?_⟩
              simp [hread, heq]

/-! ## Chains -/

theorem Meets.head? (h : Meets tree visited path chain) (hvisited : path ∉ visited) :
    chain.head? = if (document? tree path).isSome then some path else none := by
  cases h with
  | stop h =>
      rw [h.resolve_left hvisited]
      rfl
  | last hfresh hreadable hlast =>
      rw [hreadable]
      rfl
  | step hfresh hreadable hnext hrest =>
      rw [hreadable]
      rfl

theorem Meets.readable (h : Meets tree visited path chain) :
    ∀ file ∈ chain, (document? tree file).isSome = true := by
  induction h with
  | stop h => simp
  | last hfresh hreadable hlast => simpa using hreadable
  | step hfresh hreadable hnext hrest ih => exact List.forall_mem_cons.mpr ⟨hreadable, ih⟩

theorem Meets.isAbsolute_directoryOf (h : Meets tree visited path chain)
    (habsolute : path.isAbsolute = true) (hnormal : path.normalize = path) :
    ∀ file ∈ chain, (directoryOf file).isAbsolute = true := by
  induction h with
  | stop h => simp
  | last hfresh hreadable hlast =>
      simpa using CompilerSettings.isAbsolute_directoryOf habsolute hnormal hreadable
  | step hfresh hreadable hnext hrest ih =>
      have hdirectory := CompilerSettings.isAbsolute_directoryOf habsolute hnormal hreadable
      exact List.forall_mem_cons.mpr
        ⟨hdirectory, ih (hnext.isAbsolute hdirectory) hnext.normalize_eq⟩

theorem Meets.follows (h : Meets tree visited path chain) : chain.IsChain (Extends tree) := by
  induction h with
  | stop h => exact .nil
  | last hfresh hreadable hlast => exact .singleton _
  | step hfresh hreadable hnext hrest ih =>
      cases hrest with
      | stop h => exact .singleton _
      | last => exact .cons_cons hnext ih
      | step => exact .cons_cons hnext ih

theorem Meets.nodup (h : Meets tree visited path chain) :
    chain.Nodup ∧ ∀ file ∈ chain, file ∉ visited := by
  induction h with
  | stop h => simp
  | last hfresh hreadable hlast => simpa using hfresh
  | step hfresh hreadable hnext hrest ih =>
      obtain ⟨hnodup, hothers⟩ := ih
      refine ⟨List.nodup_cons.mpr ⟨?_, hnodup⟩, List.forall_mem_cons.mpr ⟨hfresh, ?_⟩⟩
      · intro hmem
        exact hothers _ hmem List.mem_cons_self
      · intro file hfile hvisited
        exact hothers file hfile (List.mem_cons_of_mem _ hvisited)

theorem Meets.ends {last : Path} (h : Meets tree visited path chain)
    (hlast : chain.getLast? = some last) (hnext : Extends tree last next) :
    next ∈ visited ∨ next ∈ chain ∨ document? tree next = none := by
  induction h with
  | stop h => cases hlast
  | last hfresh hreadable hends =>
      cases hlast
      exact (hends next hnext).elim
  | @step visited path other chain hfresh hreadable hother hrest ih =>
      cases chain with
      | nil =>
          cases hlast
          obtain rfl := hnext.eq hother
          cases hrest with
          | stop h =>
              rcases h with hmem | hnone
              · rcases List.mem_cons.mp hmem with rfl | hmem
                · exact .inr (.inl List.mem_cons_self)
                · exact .inl hmem
              · exact .inr (.inr hnone)
      | cons second rest =>
          rcases ih hlast with hmem | hmem | hnone
          · rcases List.mem_cons.mp hmem with rfl | hmem
            · exact .inr (.inl List.mem_cons_self)
            · exact .inl hmem
          · exact .inr (.inl (List.mem_cons_of_mem _ hmem))
          · exact .inr (.inr hnone)

/-- What is met from a file on is a chain. -/
theorem Meets.isChain (h : Meets tree [] path chain) : IsChain tree path chain where
  starts := h.head? List.not_mem_nil
  readable := h.readable
  follows := h.follows
  nodup := h.nodup.1
  ends _ _ hlast hnext := (h.ends hlast hnext).resolve_left List.not_mem_nil

theorem Meets.ne_nil (h : Meets tree visited path chain) (hfresh : path ∉ visited)
    (hreadable : (document? tree path).isSome = true) : chain ≠ [] := by
  rintro rfl
  cases h with
  | stop h =>
      rw [h.resolve_left hfresh] at hreadable
      cases hreadable

/-- There is one way to go from file to file. -/
theorem Meets.eq (h : Meets tree visited path chain) (h' : Meets tree visited path others) :
    chain = others := by
  induction h generalizing others with
  | stop h =>
      cases h' with
      | stop => rfl
      | last hfresh hreadable => exact ((Meets.stop h).ne_nil hfresh hreadable rfl).elim
      | step hfresh hreadable => exact ((Meets.stop h).ne_nil hfresh hreadable rfl).elim
  | last hfresh hreadable hlast =>
      cases h' with
      | stop h => exact ((Meets.stop h).ne_nil hfresh hreadable rfl).elim
      | last => rfl
      | step _ _ hnext => exact (hlast _ hnext).elim
  | step hfresh hreadable hnext hrest ih =>
      cases h' with
      | stop h => exact ((Meets.stop h).ne_nil hfresh hreadable rfl).elim
      | last _ _ hlast => exact (hlast _ hnext).elim
      | step _ _ hnext' hrest' =>
          obtain rfl := hnext.eq hnext'
          rw [ih hrest']

theorem IsChain.not_mem_of_append {first : Path} (h : IsChain tree first chain)
    {before rest : List Path} (heq : chain = before ++ path :: rest) : path ∉ before.reverse := by
  have hnodup := h.nodup
  rw [heq, List.nodup_middle, List.nodup_cons] at hnodup
  rw [List.mem_reverse]
  intro hmem
  exact hnodup.1 (List.mem_append_left _ hmem)

/-- A chain is met from each of its files on, with those before it visited. -/
theorem IsChain.meets_of_append {first : Path} (h : IsChain tree first chain)
    {before rest : List Path} (heq : chain = before ++ path :: rest) :
    Meets tree before.reverse path (path :: rest) := by
  induction rest generalizing before path with
  | nil =>
      have hreadable := h.readable path (by simp [heq])
      have hfresh := h.not_mem_of_append heq
      by_cases hnext : ∃ next, Extends tree path next
      · obtain ⟨next, hnext⟩ := hnext
        refine .step hfresh hreadable hnext (.stop ?_)
        have hends := h.ends path next (by simp [heq]) hnext
        simpa [heq, or_comm] using hends
      · rw [not_exists] at hnext
        exact .last hfresh hreadable hnext
  | cons next rest ih =>
      have hreadable := h.readable path (by simp [heq])
      have hfresh := h.not_mem_of_append heq
      have hfollows := h.follows
      rw [heq, List.isChain_append_cons_cons] at hfollows
      have hrest : chain = (before ++ [path]) ++ next :: rest := by simp [heq]
      have hmeets := ih hrest
      rw [List.reverse_concat] at hmeets
      exact .step hfresh hreadable hfollows.2.1 hmeets

theorem IsChain.meets {first : Path} (h : IsChain tree first chain) :
    Meets tree [] first chain := by
  have hstarts := h.starts
  cases chain with
  | nil =>
      refine .stop (.inr ?_)
      apply Classical.byContradiction
      intro hreadable
      rw [if_pos (Option.ne_none_iff_isSome.mp hreadable)] at hstarts
      cases hstarts
  | cons path rest =>
      have hmeets := h.meets_of_append (List.nil_append _).symm
      rw [List.head?_cons, eq_comm, Option.ite_none_right_eq_some] at hstarts
      obtain rfl := Option.some.inj hstarts.2
      exact hmeets

/-- A file has one chain. -/
theorem IsChain.eq {first : Path} (h : IsChain tree first chain) (h' : IsChain tree first others) :
    chain = others :=
  h.meets.eq h'.meets

end CompilerSettings

end LayerLint
