import LayerLint.Proofs.AliasTable
import LayerLint.Proofs.Path.Join
import LayerLint.Proofs.Rule.LayerDirection

/-! # Spellings of a place

A place can be named from the directory of the importing file, from the root, or through an alias
for a directory. All of these lead to the same place, so that no rule can tell them apart, but for
one: behind the alias a place named by a star is spelled like the alias's own key, which stands for
the directory.
-/

namespace LayerLint

variable {root directory source above target : Path} {text : String}

/-! ## An alias for a directory -/

namespace Alias

theorem withoutStar_append_star (text : String) : withoutStar (text ++ "*") = text := by
  rw [withoutStar, Text.beforeEnd?_eq_some_iff.mpr rfl]
  rfl

/-- The alias for whatever is in a directory. -/
def toDirectory (root directory : Path) : Alias :=
  ⟨"@/*", root.relativeTo directory ++ "/*"⟩

theorem stem_toDirectory (root directory : Path) : (toDirectory root directory).stem = "@/" :=
  withoutStar_append_star "@/"

theorem base_toDirectory (h : '\\' ∉ (root.relativeTo directory).toList) :
    (toDirectory root directory).base = ⟨root.relativeTo directory ++ "/"⟩ := by
  have hstar : root.relativeTo directory ++ "/*" = root.relativeTo directory ++ "/" ++ "*" := by
    rw [String.append_assoc]
    rfl
  rw [base, toDirectory, hstar, withoutStar_append_star, Path.toPosix_eq_self]
  simpa using h

/-- What is behind the alias is what is left of a specifier, unless it makes up the key. -/
theorem remainder?_toDirectory (root directory : Path) (text : String) :
    (toDirectory root directory).remainder? ("@/" ++ text) =
      some (if text = "*" then "" else text) := by
  have hspelled : (toDirectory root directory).key = "@/" ++ "*" := by
    rw [toDirectory]
    rfl
  have hkey : "@/" ++ text = "@/" ++ "*" ↔ text = "*" := String.append_right_inj "@/"
  rw [remainder?, hspelled, stem_toDirectory, Text.afterStart?_eq_some_iff.mpr rfl]
  split
  next h => rw [if_pos (hkey.mp h)]
  next h => rw [if_neg (fun heq => h (hkey.mpr heq))]

/-- What is behind the alias is looked for in the directory. -/
theorem place_toDirectory (hroot : root.isAbsolute = true) (hdirectory : root.IsBelow directory)
    (hbackslash : '\\' ∉ (root.relativeTo directory).toList)
    (hrelative : (Path.mk text).isAbsolute = false) :
    (toDirectory root directory).place root text = (directory.join ⟨text⟩).normalize := by
  have habsolute := hdirectory.isAbsolute hroot
  have hne := hdirectory.relativeTo_ne_empty hroot
  have hwritten := Path.isAbsolute_relativeTo hroot habsolute
  have hbase : (root.join (toDirectory root directory).base).normalComponents =
      directory.normalComponents := by
    rw [base_toDirectory hbackslash, Path.normalComponents_join_slash hne hwritten]
    exact Path.normalComponents_join_relativeTo rfl hroot habsolute
  have hinside : (toDirectory root directory).base.isAbsolute = false := by
    rw [base_toDirectory hbackslash, Path.isAbsolute_append hne, hwritten]
  have hjoin := Path.normalize_join_congr hbase rfl hrelative hrelative
  rw [place, hinside, if_neg Bool.false_ne_true, Path.dropLeading_slash hrelative, ← hjoin]
  -- the directory itself is not joined to anything
  split
  next hempty =>
    obtain rfl : text = "" := by simpa using hempty
    rw [Path.normalize, Path.normalize, Path.normalComponents_join_empty]
  next => rfl

end Alias

namespace AliasTable

/-- The table whose only alias leads to a directory. -/
def toDirectory (root directory : Path) : AliasTable :=
  .ofList [("@/*", root.relativeTo directory ++ "/*")]

theorem entries_toDirectory (root directory : Path) :
    (toDirectory root directory).entries = [.toDirectory root directory] := by
  simp [toDirectory, ofList, insert, put, place, empty, Alias.toDirectory]

theorem find?_toDirectory (root directory : Path) (text : String) :
    (toDirectory root directory).find? ("@/" ++ text) =
      some (.toDirectory root directory, if text = "*" then "" else text) := by
  rw [find?, entries_toDirectory, List.findSome?_cons, Alias.remainder?_toDirectory]
  rfl

end AliasTable

/-! ## Resolving -/

namespace Specifier

/-- The ways to name a place. -/
inductive Spelling where
  /-- From the directory of the importing file. -/
  | fromSource
  /-- From the root. -/
  | fromRoot
  /-- Behind the alias for a directory. -/
  | fromDirectory
  deriving Repr, DecidableEq

/-- The specifier for a place; the importing file is in `above`. -/
def Spelling.specifier (above root directory target : Path) : Spelling → String
  | fromSource => "./" ++ above.relativeTo target
  | fromRoot => "/" ++ root.relativeTo target
  | fromDirectory => "@/" ++ directory.relativeTo target

theorem resolve?_fromSource {aliases : AliasTable} (hsource : source.parent? = some above)
    (hrelative : (Path.mk text).isAbsolute = false) :
    resolve? ("./" ++ text) source root aliases = some ((above.join ⟨text⟩).normalize) := by
  have hclass : classify ("./" ++ text) aliases = .relative := by
    rw [classify, if_pos]
    exact Text.beginsWith_iff.mpr ⟨"/" ++ text, by simp [← String.append_assoc]⟩
  have hsteps : Path.steps ⟨"./" ++ text⟩ = Path.steps ⟨text⟩ :=
    Path.steps_slash "." text
  have hdot : (Path.mk ("./" ++ text)).isAbsolute = false :=
    Path.isAbsolute_append (by decide)
  rw [resolve?, hclass, hsource]
  exact congrArg some (Path.normalize_join_congr rfl hsteps hdot hrelative)

theorem resolve?_fromRoot {aliases : AliasTable} (hrelative : (Path.mk text).isAbsolute = false) :
    resolve? ("/" ++ text) source root aliases = some ((root.join ⟨text⟩).normalize) := by
  have hclass : classify ("/" ++ text) aliases = .rootAbsolute := by
    have hdot : Text.beginsWith "." ("/" ++ text) = false := by
      simp [Text.beginsWith, List.isPrefixOf]
    rw [classify, hdot, if_neg Bool.false_ne_true, if_pos (Text.beginsWith_iff.mpr ⟨text, rfl⟩)]
  have hdrop : Text.dropLeading '/' ("/" ++ text) = text := by
    have hfirst : Text.dropLeading '/' ("/" ++ text) = Text.dropLeading '/' text := by
      simp [Text.dropLeading]
    rw [hfirst, Path.dropLeading_slash hrelative]
  simp only [resolve?, hclass, hdrop]

theorem resolve?_fromDirectory (hroot : root.isAbsolute = true)
    (hdirectory : root.IsBelow directory) (hbackslash : '\\' ∉ (root.relativeTo directory).toList)
    (hrelative : (Path.mk text).isAbsolute = false) :
    resolve? ("@/" ++ text) source root (.toDirectory root directory) =
      some ((directory.join ⟨if text = "*" then "" else text⟩).normalize) := by
  have hfind := AliasTable.find?_toDirectory root directory text
  have hclass : classify ("@/" ++ text) (.toDirectory root directory) = .aliased := by
    have hdot : Text.beginsWith "." ("@/" ++ text) = false := by
      simp [Text.beginsWith, List.isPrefixOf]
    have hslash : Text.beginsWith "/" ("@/" ++ text) = false := by
      simp [Text.beginsWith, List.isPrefixOf]
    rw [classify, hdot, if_neg Bool.false_ne_true, hslash, if_neg Bool.false_ne_true,
      AliasTable.isMatch, hfind]
    rfl
  have hrest : (Path.mk (if text = "*" then "" else text)).isAbsolute = false := by
    split
    · decide
    · exact hrelative
  simp only [resolve?, hclass, AliasTable.resolve?, hfind, Option.map_some]
  rw [Alias.place_toDirectory hroot hdirectory hbackslash hrest]

/-- The key of the alias leads to the directory. -/
theorem resolve?_key (hroot : root.isAbsolute = true) (hdirectory : root.IsBelow directory)
    (hbackslash : '\\' ∉ (root.relativeTo directory).toList) :
    resolve? "@/*" source root (.toDirectory root directory) = some directory.normalize := by
  have hspelled : "@/*" = "@/" ++ "*" := by decide
  have hkey : resolve? ("@/" ++ "*") source root (.toDirectory root directory) =
      some ((directory.join ⟨""⟩).normalize) :=
    resolve?_fromDirectory hroot hdirectory hbackslash (by decide)
  rw [hspelled, hkey, Path.normalize, Path.normalComponents_join_empty, Path.normalize]

/-! ## What rules learn -/

/-- What rules learn from a reference in `source` with this specifier is about `target`: it is the
place that the reference leads to, whose placement the edge ends at, whose rank decides whether the
reference is upward, and whose module the reference counts for. -/
structure LeadsTo (root : Path) (aliases : AliasTable) (source target : Path)
    (specifier : String) : Prop where
  place : resolve? specifier source root aliases = some target
  placement (context : Context) (hroot : context.root = root) (haliases : context.aliases = aliases)
      (origin : Placement) (text : String) (offset : Nat) (kind : Source.ReferenceKind) :
    (ImportEdge.ofReference? context source origin text ⟨specifier, offset, kind⟩).map
      ImportEdge.target = context.placement? target
  verdict (context : Context) (hroot : context.root = root) (haliases : context.aliases = aliases)
      (offset : Nat) (kind : Source.ReferenceKind) :
    Rule.LayerDirection.IsUpward context source ⟨specifier, offset, kind⟩ ↔
      ∃ rank rank', context.rank? source = some rank ∧ context.rank? target = some rank' ∧
        rank < rank'
  key (context : Context) (hroot : context.root = root) (haliases : context.aliases = aliases)
      (origin : Placement) (text : String) (offset : Nat) (kind : Source.ReferenceKind) :
    (ImportEdge.ofReference? context source origin text ⟨specifier, offset, kind⟩).bind
      (·.target.scopedKey) = (context.placement? target).bind Placement.scopedKey

theorem LeadsTo.of_resolve? {aliases : AliasTable} {specifier : String}
    (h : resolve? specifier source root aliases = some target) :
    LeadsTo root aliases source target specifier where
  place := h
  placement := by
    rintro context rfl rfl origin text offset kind
    simp only [ImportEdge.ofReference?, h, Option.bind_eq_bind, Option.bind_some, Option.pure_def]
    cases context.placement? target <;> rfl
  verdict := by
    rintro context rfl rfl offset kind
    simp only [Rule.LayerDirection.IsUpward, h, Option.some.injEq]
    constructor
    · rintro ⟨place, rank, rank', rfl, hrank⟩
      exact ⟨rank, rank', hrank⟩
    · rintro ⟨rank, rank', hrank⟩
      exact ⟨target, rank, rank', rfl, hrank⟩
  key := by
    rintro context rfl rfl origin text offset kind
    simp only [ImportEdge.ofReference?, h, Option.bind_eq_bind, Option.bind_some, Option.pure_def]
    cases context.placement? target <;> rfl

/-- However a place is spelled, its specifier leads to it, unless it is the entry of the directory
that is named by a star: behind the alias that spells the alias's own key. -/
theorem leadsTo_of_spelling (hroot : root.isAbsolute = true) (hsource : root.IsBelow source)
    (hdirectory : root.IsBelow directory) (hbackslash : '\\' ∉ (root.relativeTo directory).toList)
    (htarget : target.isAbsolute = true) (hnormal : target.normalize = target) :
    ∃ above, source.parent? = some above ∧
      (∀ spelling : Spelling,
        (spelling = .fromDirectory →
          target.normalComponents ≠ directory.normalComponents ++ [.name "*"]) →
        LeadsTo root (.toDirectory root directory) source target
          (spelling.specifier above root directory target)) ∧
      LeadsTo root (.toDirectory root directory) source directory.normalize "@/*" := by
  obtain ⟨above, hparent, habove⟩ := hsource.exists_parent? hroot
  have hinside := hdirectory.isAbsolute hroot
  refine ⟨above, hparent, ?_, .of_resolve? (resolve?_key hroot hdirectory hbackslash)⟩
  intro spelling hstar
  apply LeadsTo.of_resolve?
  cases spelling with
  | fromSource =>
      rw [Spelling.specifier,
        resolve?_fromSource hparent (Path.isAbsolute_relativeTo habove htarget),
        Path.normalize_join_relativeTo rfl habove htarget, hnormal]
  | fromRoot =>
      rw [Spelling.specifier, resolve?_fromRoot (Path.isAbsolute_relativeTo hroot htarget),
        Path.normalize_join_relativeTo rfl hroot htarget, hnormal]
  | fromDirectory =>
      have hrest : directory.relativeTo target ≠ "*" := by
        intro heq
        have hname : Path.IsName "*" := by simp [Path.IsName]
        exact hstar rfl ((Path.relativeTo_eq_name_iff hname hinside htarget).mp heq)
      rw [Spelling.specifier, resolve?_fromDirectory hroot hdirectory hbackslash
          (Path.isAbsolute_relativeTo hinside htarget), if_neg hrest,
        Path.normalize_join_relativeTo rfl hinside htarget, hnormal]

/-- A state, spelled three times in a page, and the alias's key. -/
theorem leadsTo_cart_from_home :
    let aliases := AliasTable.toDirectory ⟨"/repo"⟩ ⟨"/repo/src"⟩
    let home := Path.mk "/repo/src/_pages/home/home.tsx"
    let cart := Path.mk "/repo/src/_states/cart"
    LeadsTo ⟨"/repo"⟩ aliases home cart "./../../_states/cart" ∧
      LeadsTo ⟨"/repo"⟩ aliases home cart "/src/_states/cart" ∧
      LeadsTo ⟨"/repo"⟩ aliases home cart "@/_states/cart" ∧
      LeadsTo ⟨"/repo"⟩ aliases home ⟨"/repo/src"⟩ "@/*" := by
  have hhome : (Path.mk "/repo").IsBelow ⟨"/repo/src/_pages/home/home.tsx"⟩ :=
    ⟨[.name "src", .name "_pages", .name "home", .name "home.tsx"], by simp, by decide +kernel⟩
  have hsrc : (Path.mk "/repo").IsBelow ⟨"/repo/src"⟩ :=
    ⟨[.name "src"], by simp, by decide +kernel⟩
  have hcart : (Path.mk "/repo/src/_states/cart").normalComponents ≠
      (Path.mk "/repo/src").normalComponents ++ [.name "*"] := by decide +kernel
  have hnormal : (Path.mk "/repo/src/_states/cart").normalize = ⟨"/repo/src/_states/cart"⟩ := by
    decide +kernel
  have hparent : (Path.mk "/repo/src/_pages/home/home.tsx").parent? =
      some ⟨"/repo/src/_pages/home"⟩ := by decide +kernel
  have hdirectory : (Path.mk "/repo/src").normalize = ⟨"/repo/src"⟩ := by decide +kernel
  obtain ⟨above, habove, hspelling, hkey⟩ :=
    leadsTo_of_spelling (by decide) hhome hsrc (by decide +kernel) (by decide) hnormal
  obtain rfl : _ = above := Option.some.inj (hparent.symm.trans habove)
  have hsource : Spelling.fromSource.specifier ⟨"/repo/src/_pages/home"⟩ ⟨"/repo"⟩ ⟨"/repo/src"⟩
      ⟨"/repo/src/_states/cart"⟩ = "./../../_states/cart" := by decide +kernel
  have hroot : Spelling.fromRoot.specifier ⟨"/repo/src/_pages/home"⟩ ⟨"/repo"⟩ ⟨"/repo/src"⟩
      ⟨"/repo/src/_states/cart"⟩ = "/src/_states/cart" := by decide +kernel
  have halias : Spelling.fromDirectory.specifier ⟨"/repo/src/_pages/home"⟩ ⟨"/repo"⟩ ⟨"/repo/src"⟩
      ⟨"/repo/src/_states/cart"⟩ = "@/_states/cart" := by decide +kernel
  refine ⟨?_, ?_, ?_, hdirectory ▸ hkey⟩
  · exact hsource ▸ hspelling .fromSource fun _ => hcart
  · exact hroot ▸ hspelling .fromRoot fun _ => hcart
  · exact halias ▸ hspelling .fromDirectory fun _ => hcart

/-- The specifiers for the entry of a directory that is named by a star do not all lead to it. -/
theorem not_resolve?_star :
    let root := Path.mk "/repo"
    let source := Path.mk "/repo/src/a.ts"
    let directory := Path.mk "/repo/src"
    let target := Path.mk "/repo/src/*"
    root.isAbsolute = true ∧ root.IsBelow source ∧ source.normalize = source ∧
      root.IsBelow directory ∧ target.normalize = target ∧
      directory.normalComponents <+: target.normalComponents ∧
      ([root, source, directory, target].all fun path => !path.text.toList.contains '\\') = true ∧
      resolve? (Spelling.fromDirectory.specifier directory root directory target) source root
        (.ofList [("@/*", root.relativeTo directory ++ "/*")]) ≠ some target := by
  refine ⟨by decide, ⟨[.name "src", .name "a.ts"], by simp, by decide +kernel⟩, by decide +kernel,
    ⟨[.name "src"], by simp, by decide +kernel⟩, by decide +kernel, by decide +kernel,
    by decide +kernel, by decide +kernel⟩

end Specifier

end LayerLint
