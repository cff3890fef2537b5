import LayerLint.Proofs.AliasTable
import LayerLint.Proofs.Dict
import LayerLint.Proofs.Discovery.Chain

/-! # The aliases of a chain

Each file of a chain gives targets to keys, and its targets go before those of the files behind it.
A target starts from the nearest directory that its file, or one behind it, names for this, and
otherwise from the directory of its file.
-/

namespace LayerLint.CompilerSettings

variable {tree : FileTree} {path : Path} {chain later : List Path} {value entry : Json}
variable {key first base : String} {inherited : Option Path × AliasTable}

/-- The entry is the text, or an array with it as its first text. -/
def IsFirstText (entry : Json) (first : String) : Prop :=
  entry = .string first ∨
    ∃ skipped rest, entry = .array (skipped ++ .string first :: rest) ∧
      ∀ item ∈ skipped, item.string? = none

/-- The file gives the target to the key. -/
def HasTarget (tree : FileTree) (path : Path) (key target : String) : Prop :=
  ∃ value options paths entry, document? tree path = some value ∧
    value.get? "compilerOptions" = some options ∧ options.get? "paths" = some paths ∧
    paths.get? key = some entry ∧ IsFirstText entry target

/-- The directory that the file names for targets to start from. -/
def baseUrl? (tree : FileTree) (path : Path) : Option Path := do
  let value ← document? tree path
  let options ← value.get? "compilerOptions"
  let base ← (← options.get? "baseUrl").string?
  return ((directoryOf path).join ⟨base⟩).normalize

/-- Where the targets of a file start from, with the files behind it on a chain. -/
def anchor (tree : FileTree) (path : Path) (later : List Path) : Path :=
  ((path :: later).findSome? (baseUrl? tree)).getD (directoryOf path)

/-- The place of the target that the first file with one for the key gives to it. -/
def IsAlias (tree : FileTree) (chain : List Path) (key base : String) : Prop :=
  ∃ earlier path later target, chain = earlier ++ path :: later ∧
    (∀ file ∈ earlier, ∀ other, ¬ HasTarget tree file key other) ∧
    HasTarget tree path key target ∧
    base = Path.toPosix ((anchor tree path later).join ⟨target⟩).normalize.text

theorem isAlias_nil : ¬ IsAlias tree [] key base := by
  rintro ⟨earlier, path, later, target, heq, -⟩
  simp at heq

/-- What the first file says about a key hides what the others say. -/
theorem isAlias_cons : IsAlias tree (path :: later) key base ↔
    (∃ target, HasTarget tree path key target ∧
      base = Path.toPosix ((anchor tree path later).join ⟨target⟩).normalize.text) ∨
    ((∀ other, ¬ HasTarget tree path key other) ∧ IsAlias tree later key base) := by
  constructor
  · rintro ⟨earlier, file, behind, target, heq, hearlier, htarget, hbase⟩
    cases earlier with
    | nil =>
        cases heq
        exact .inl ⟨target, htarget, hbase⟩
    | cons head rest =>
        cases heq
        obtain ⟨hhead, hrest⟩ := List.forall_mem_cons.mp hearlier
        exact .inr ⟨hhead, rest, file, behind, target, rfl, hrest, htarget, hbase⟩
  · rintro (⟨target, htarget, hbase⟩ | ⟨hnone, earlier, file, behind, target, rfl, hearlier, hrest⟩)
    · exact ⟨[], path, later, target, rfl, by simp, htarget, hbase⟩
    · refine ⟨path :: earlier, file, behind, target, rfl, ?_, hrest⟩
      exact List.forall_mem_cons.mpr ⟨hnone, hearlier⟩

/-! ## One file -/

theorem firstTarget?_eq_some_iff : firstTarget? entry = some first ↔ IsFirstText entry first := by
  unfold IsFirstText
  cases entry with
  | array items =>
      rw [firstTarget?, List.findSome?_eq_some_iff]
      simp only [Json.string?_eq_some_iff, reduceCtorEq, false_or, Json.array.injEq]
      constructor
      · rintro ⟨skipped, _, rest, heq, rfl, hskipped⟩
        exact ⟨skipped, rest, heq, hskipped⟩
      · rintro ⟨skipped, rest, heq, hskipped⟩
        exact ⟨skipped, _, rest, heq, rfl, hskipped⟩
  | string text => simp [firstTarget?]
  | _ => simp [firstTarget?]

theorem baseUrl_ofJson (h : document? tree path = some value) :
    (ofJson (directoryOf path) value).baseUrl = baseUrl? tree path := by
  rw [baseUrl?, h]
  simp only [ofJson, Option.bind_eq_bind, Option.bind_some]
  cases value.get? "compilerOptions" with
  | none => rfl
  | some options =>
      simp only [Option.bind_some]
      cases options.get? "baseUrl" with
      | none => rfl
      | some written =>
          simp only [Option.bind_some]
          cases written.string? <;> rfl

theorem isAbsolute_of_baseUrl? {directory : Path} (h : baseUrl? tree path = some directory)
    (habsolute : (directoryOf path).isAbsolute = true) : directory.isAbsolute = true := by
  simp only [baseUrl?, Option.bind_eq_bind, Option.bind_eq_some_iff] at h
  obtain ⟨value, -, options, -, written, -, text, -, hdirectory⟩ := h
  cases hdirectory
  exact Path.isAbsolute_normalize (Path.isAbsolute_join habsolute _)

theorem isAbsolute_anchor (h : ∀ file ∈ path :: later, (directoryOf file).isAbsolute = true) :
    (anchor tree path later).isAbsolute = true := by
  unfold anchor
  cases hbase : (path :: later).findSome? (baseUrl? tree) with
  | none => exact h path List.mem_cons_self
  | some directory =>
      obtain ⟨file, hfile, hdirectory⟩ := List.exists_of_findSome?_eq_some hbase
      exact isAbsolute_of_baseUrl? hdirectory (h file hfile)

theorem mem_targets (h : document? tree path = some value) :
    (key, first) ∈ (ofJson (directoryOf path) value).targets ↔ HasTarget tree path key first := by
  have hmember (members : Option (List (String × Json))) (entry : Json) :
      (key, entry) ∈ (Dict.ofList (members.getD [])).toList ↔
        ∃ written, members = some written ∧ Json.lastOf? written key = some entry := by
    rw [← Dict.get?_eq_some_iff, Dict.get?_ofList]
    cases members with
    | none => simp
    | some written => simp [Json.lastOf?]
  have htargets : (key, first) ∈ (ofJson (directoryOf path) value).targets ↔
      ∃ entry, (key, entry) ∈ (Dict.ofList ((((value.get? "compilerOptions").bind
        (·.get? "paths")).bind Json.object?).getD [])).toList ∧
          firstTarget? entry = some first := by
    simp [ofJson]
  simp only [htargets, hmember, Option.bind_eq_some_iff, firstTarget?_eq_some_iff]
  constructor
  · rintro ⟨entry, ⟨members, ⟨paths, ⟨options, hoptions, hpaths⟩, hmembers⟩, hentry⟩, hfirst⟩
    refine ⟨value, options, paths, entry, h, hoptions, hpaths, ?_, hfirst⟩
    rw [Json.get?, hmembers]
    exact hentry
  · rintro ⟨value', options, paths, entry, hvalue, hoptions, hpaths, hentry, hfirst⟩
    obtain rfl := Option.some.inj (h.symm.trans hvalue)
    obtain ⟨members, hmembers, hentry⟩ := Option.bind_eq_some_iff.mp hentry
    exact ⟨entry, ⟨members, ⟨paths, ⟨options, hoptions, hpaths⟩, hmembers⟩, hentry⟩, hfirst⟩

theorem exists_mem_targets_iff (h : document? tree path = some value) {start : Path} :
    (∃ item ∈ (ofJson (directoryOf path) value).targets, item.1 ≠ "" ∧
      (⟨key, base⟩ : Alias) = ⟨item.1, Path.toPosix (start.join ⟨item.2⟩).normalize.text⟩) ↔
      key ≠ "" ∧ ∃ target, HasTarget tree path key target ∧
        base = Path.toPosix (start.join ⟨target⟩).normalize.text := by
  simp only [Prod.exists, mem_targets h, Alias.mk.injEq]
  constructor
  · rintro ⟨_, target, htarget, hne, rfl, hbase⟩
    exact ⟨hne, target, htarget, hbase⟩
  · rintro ⟨hne, target, htarget, hbase⟩
    exact ⟨key, target, htarget, hne, rfl, hbase⟩

theorem forall_mem_targets_ne_iff (h : document? tree path = some value) :
    (∀ item ∈ (ofJson (directoryOf path) value).targets, key ≠ item.1) ↔
      ∀ target, ¬ HasTarget tree path key target := by
  simp only [Prod.forall, mem_targets h]
  constructor
  · intro hfree target htarget
    exact hfree key target htarget rfl
  · rintro hnone _ target htarget rfl
    exact hnone target htarget

theorem nodup_targets (directory : Path) (value : Json) :
    ((ofJson directory value).targets.map Prod.fst).Nodup := by
  refine List.pairwise_map.mpr (List.Pairwise.filterMap _ ?_ (List.pairwise_map.mp
    (Dict.nodup_keys _)))
  intro earlier later hkeys target htarget other hother
  obtain ⟨_, -, rfl⟩ := Option.map_eq_some_iff.mp htarget
  obtain ⟨_, -, rfl⟩ := Option.map_eq_some_iff.mp hother
  exact hkeys

/-! ## The whole chain -/

/-- What files hand down: the nearest directory for targets to start from, and the aliases. -/
structure HandsDown (tree : FileTree) (chain : List Path)
    (inherited : Option Path × AliasTable) : Prop where
  baseUrl : inherited.1 = chain.findSome? (baseUrl? tree)
  isOrdered : inherited.2.IsOrdered
  mem_iff : ∀ member, member ∈ inherited.2.entries ↔
    member.key ≠ "" ∧ IsAlias tree chain member.key member.target

theorem handsDown_nil : HandsDown tree [] (none, .empty) where
  baseUrl := rfl
  isOrdered := AliasTable.isOrdered_empty
  mem_iff member := by simp [AliasTable.empty, isAlias_nil]

/-- One more file in front gives its targets to its keys, and leaves the other keys as they are. -/
theorem HandsDown.extend (h : HandsDown tree later inherited)
    (hvalue : document? tree path = some value)
    (habsolute : ∀ file ∈ path :: later, (directoryOf file).isAbsolute = true) :
    HandsDown tree (path :: later) ((ofJson (directoryOf path) value).extend inherited) := by
  have hbase : (ofJson (directoryOf path) value).baseUrl.or inherited.1 =
      (path :: later).findSome? (baseUrl? tree) := by
    rw [baseUrl_ofJson hvalue, h.baseUrl, List.findSome?_cons]
    cases baseUrl? tree path <;> rfl
  have hanchor : ((ofJson (directoryOf path) value).baseUrl.or inherited.1).getD
      (ofJson (directoryOf path) value).directory = anchor tree path later := by
    rw [hbase]
    rfl
  have htargets : ∀ target ∈ (ofJson (directoryOf path) value).targets,
      Path.toPosix ((anchor tree path later).join ⟨target.2⟩).normalize.text ≠ "" := by
    intro target _
    apply Path.toPosix_ne_empty
    exact Path.isAbsolute_normalize (Path.isAbsolute_join (isAbsolute_anchor habsolute) _)
  have hkeys : ∀ member ∈ inherited.2.entries, member.key ≠ "" := by
    intro member hmember
    exact ((h.mem_iff member).mp hmember).1
  refine ⟨hbase, h.isOrdered.foldl_insert _ _ _, ?_⟩
  rintro ⟨key, base⟩
  rw [CompilerSettings.extend]
  dsimp only
  rw [hanchor, AliasTable.mem_foldl_insert (nodup_targets _ _) htargets hkeys, h.mem_iff]
  dsimp only
  rw [isAlias_cons, exists_mem_targets_iff hvalue, forall_mem_targets_ne_iff hvalue, and_assoc,
    ← and_or_left, and_comm (a := IsAlias tree later key base)]

theorem handsDown_foldr (hreadable : ∀ file ∈ chain, (document? tree file).isSome = true)
    (habsolute : ∀ file ∈ chain, (directoryOf file).isAbsolute = true) :
    HandsDown tree chain ((chain.filterMap (read? tree)).foldr extend (none, .empty)) := by
  induction chain with
  | nil => exact handsDown_nil
  | cons path later ih =>
      obtain ⟨hpath, hlater⟩ := List.forall_mem_cons.mp hreadable
      obtain ⟨value, hvalue⟩ := Option.isSome_iff_exists.mp hpath
      have hread : read? tree path = some (ofJson (directoryOf path) value) := by
        rw [read?_eq_map, hvalue, Option.map_some]
      rw [List.filterMap_cons_some hread, List.foldr_cons]
      exact (ih hlater (List.forall_mem_cons.mp habsolute).2).extend hvalue habsolute

end LayerLint.CompilerSettings
