import LayerLint.Proofs.Consumer
import LayerLint.Proofs.Dict
import LayerLint.Proofs.ImportEdge
import LayerLint.Proofs.Placement

/-! # Which shared modules are reported

The rule goes over files and edges and counts as it goes. What it reports is determined by two
relations alone: which files a module has, and which consumers. Neither says how often or in which
order files and references are met.
-/

namespace LayerLint.Rule.SharedModule

variable {context : Context} {key layer file : String} {consumer : Consumer}

/-! ## What a module has -/

/-- The file belongs to the module of the key, in one of the layers that are looked at. -/
def IsFile (context : Context) (key layer file : String) : Prop :=
  ∃ path ∈ context.candidates, ∃ placement, context.placement? path = some placement ∧
    placement.scopedKey = some key ∧ placement.layer = layer ∧
    layer ∈ context.config.sharedModules.layers ∧ placement.relativePath = file

/-- The file comes first among those of the module. -/
def IsFirstFile (context : Context) (key layer file : String) : Prop :=
  IsFile context key layer file ∧ ∀ layer' file', IsFile context key layer' file' → file ≤ file'

/-- Some source text refers downward to the module, and counts as the consumer. -/
def IsConsumer (context : Context) (key : String) (consumer : Consumer) : Prop :=
  ∃ path ∈ context.candidates, path.isSource = true ∧
    ∃ edge ∈ ImportEdge.allFrom context path (context.text path),
      edge.target.scopedKey = some key ∧
      edge.target.layer ∈ context.config.sharedModules.layers ∧
      (∃ source target, edge.source.rank = some source ∧ edge.target.rank = some target ∧
        target < source) ∧
      edge.source.consumer? = some consumer

/-- The module has consumers, but too few of them, and is not nested in its only one. -/
def IsMisplaced (context : Context) (key : String) : Prop :=
  (∃ layer file, IsFile context key layer file) ∧
    ∃ consumers, Consumer.Lists consumers (IsConsumer context key) ∧ consumers ≠ [] ∧
      consumers.length < context.config.sharedModules.leastConsumers.toNat ∧
      ∀ only, consumers = [only] → ¬ only.contains key = true

/-- The violation stands at the beginning of the module's first file and shows its consumers. -/
def Reports (context : Context) (key : String) (violation : Violation) : Prop :=
  ∃ layer file consumers, IsFirstFile context key layer file ∧
    Consumer.Lists consumers (IsConsumer context key) ∧
    violation = {
      rule := id
      file
      line := 1
      column := 1
      message := "Global module '" ++ key ++ "' is referenced by only " ++
        toString consumers.length ++ " upper-layer scope(s): " ++
        Text.joinWith ", " (consumers.map fun consumer => "'" ++ consumer.key ++ "'") ++ ". " ++
        hint ⟨layer, consumers⟩ }

/-! ## First files -/

/-- The key and the file that a placement enters, if its layer is looked at. -/
def keyedFile? (config : Config) (placement : Placement) : Option (String × String) :=
  placement.scopedKey.bind fun key =>
    if config.sharedModules.layers.contains placement.layer then
      some (key, placement.relativePath)
    else none

/-- All keys and files that are entered. -/
def keyedFiles (context : Context) : List (String × String) :=
  (context.candidates.filterMap context.placement?).filterMap (keyedFile? context.config)

theorem firstFiles_eq_foldl (context : Context) : firstFiles context =
    (keyedFiles context).foldl (fun files entry => files.modify entry.1 entry.2 fun first =>
      if entry.2 < first then entry.2 else first) .empty := by
  rw [firstFiles, keyedFiles, List.foldl_filterMap (f := keyedFile? context.config)]
  congr
  funext files placement
  unfold keyedFile?
  cases placement.scopedKey with
  | none => rfl
  | some key =>
      simp only [Option.bind_some]
      split <;> rfl

theorem mem_keyedFiles_iff :
    (key, file) ∈ keyedFiles context ↔ ∃ layer, IsFile context key layer file := by
  simp only [keyedFiles, keyedFile?, List.mem_filterMap, Option.bind_eq_some_iff,
    Option.ite_none_right_eq_some, Option.some.injEq, Prod.mk.injEq, IsFile, List.contains_iff_mem]
  constructor
  · rintro ⟨placement, ⟨path, hpath, hplacement⟩, key, hkey, hlayer, rfl, rfl⟩
    exact ⟨_, path, hpath, placement, hplacement, hkey, rfl, hlayer, rfl⟩
  · rintro ⟨layer, path, hpath, placement, hplacement, hkey, rfl, hlayer, rfl⟩
    exact ⟨placement, ⟨path, hpath, hplacement⟩, key, hkey, hlayer, rfl, rfl⟩

/-- The value is the least of the entered files, and there is none if no file was entered. -/
def IsLeast (entries : List (String × String)) : Option String → Prop
  | none => entries = []
  | some first => (∃ entry ∈ entries, entry.2 = first) ∧ ∀ entry ∈ entries, first ≤ entry.2

theorem IsLeast.step {seen : List (String × String)} {value : Option String}
    (h : IsLeast seen value) (entry : String × String) :
    IsLeast (seen ++ [entry]) (some (if entry.2 < value.getD entry.2 then entry.2
      else value.getD entry.2)) := by
  cases value with
  | none =>
      obtain rfl : seen = [] := h
      simp [IsLeast]
  | some first =>
      obtain ⟨⟨found, hfound, heq⟩, hleast⟩ := h
      rw [Option.getD_some]
      split
      next hlt =>
        refine ⟨⟨entry, by simp, rfl⟩, ?_⟩
        rw [List.forall_mem_append, List.forall_mem_singleton]
        refine ⟨?_, String.le_refl _⟩
        intro other hother
        exact String.le_trans (String.not_lt.mp (String.lt_asymm hlt)) (hleast other hother)
      next hge =>
        refine ⟨⟨found, List.mem_append_left _ hfound, heq⟩, ?_⟩
        rw [List.forall_mem_append, List.forall_mem_singleton]
        exact ⟨hleast, String.not_lt.mp hge⟩

theorem isLeast_firstFiles {value : Option String} (h : (firstFiles context).get? key = value) :
    IsLeast ((keyedFiles context).filter (·.1 = key)) value := by
  rw [← h, firstFiles_eq_foldl]
  have hrun := Dict.get?_foldl_modify Prod.fst Prod.snd
    (fun entry first => if entry.2 < first then entry.2 else first) key
    (motive := IsLeast) (fun seen entry value _ h => h.step entry) (keyedFiles context) [] .empty
    (by rfl)
  simpa using hrun

theorem mem_filter_keyedFiles_iff {entry : String × String} :
    entry ∈ (keyedFiles context).filter (·.1 = key) ↔
      entry.1 = key ∧ ∃ layer, IsFile context key layer entry.2 := by
  rw [List.mem_filter, decide_eq_true_iff, and_comm, and_congr_right_iff]
  rintro rfl
  exact mem_keyedFiles_iff

theorem isFirstFile_of_get?_firstFiles (h : (firstFiles context).get? key = some file) :
    ∃ layer, IsFirstFile context key layer file := by
  obtain ⟨⟨entry, hentry, rfl⟩, hleast⟩ := isLeast_firstFiles h
  obtain ⟨rfl, layer, hfile⟩ := mem_filter_keyedFiles_iff.mp hentry
  refine ⟨layer, hfile, ?_⟩
  intro layer' file' hfile'
  exact hleast (entry.1, file') (mem_filter_keyedFiles_iff.mpr ⟨rfl, layer', hfile'⟩)

theorem exists_get?_firstFiles (h : IsFile context key layer file) :
    ∃ first, (firstFiles context).get? key = some first := by
  apply Option.ne_none_iff_exists'.mp
  intro hnone
  have hempty : (keyedFiles context).filter (·.1 = key) = [] := isLeast_firstFiles hnone
  have hentry : (key, file) ∈ (keyedFiles context).filter (·.1 = key) :=
    mem_filter_keyedFiles_iff.mpr ⟨rfl, layer, h⟩
  rw [hempty] at hentry
  cases hentry

theorem get?_firstFiles_of_isFirstFile (h : IsFirstFile context key layer file) :
    (firstFiles context).get? key = some file := by
  obtain ⟨first, hget⟩ := exists_get?_firstFiles h.1
  obtain ⟨layer', hfirst⟩ := isFirstFile_of_get?_firstFiles hget
  rw [hget, String.le_antisymm (hfirst.2 _ _ h.1) (h.2 _ _ hfirst.1)]

/-! ## Consumers -/

/-- What an edge counts for: the module that it leads to, its layer, and the consumer. -/
structure Use where
  key : String
  layer : String
  consumer : Consumer

/-- The usage with the consumer of one more use. -/
def Use.addTo (use : Use) (usage : Usage) : Usage :=
  { usage with consumers := use.consumer.insert usage.consumers }

/-- What an edge counts for, if it leads downward to a layer that is looked at. -/
def use? (config : Config) (edge : ImportEdge) : Option Use :=
  edge.target.scopedKey.bind fun key => edge.source.consumer?.bind fun consumer =>
    if config.sharedModules.layers.contains edge.target.layer && edge.isDownward then
      some ⟨key, edge.target.layer, consumer⟩
    else none

/-- All uses of modules, in the order of the edges. -/
def uses (context : Context) : List Use :=
  (edges context).filterMap (use? context.config)

theorem usages_eq_foldl (context : Context) : usages context =
    (uses context).foldl (fun usages use =>
      usages.modify use.key ⟨use.layer, []⟩ use.addTo) .empty := by
  rw [usages, uses, List.foldl_filterMap]
  congr
  funext usages edge
  unfold count use?
  cases edge.target.scopedKey <;> cases edge.source.consumer? <;> try rfl
  simp only [Option.bind_some]
  split <;> rfl

theorem exists_mem_uses_iff :
    (∃ use ∈ uses context, use.key = key ∧ use.consumer = consumer) ↔
      IsConsumer context key consumer := by
  simp only [uses, use?, edges, List.mem_filterMap, List.mem_flatMap, List.mem_filter,
    Option.bind_eq_some_iff, Option.ite_none_right_eq_some, Option.some.injEq, Bool.and_eq_true,
    ImportEdge.isDownward_iff, List.contains_iff_mem, IsConsumer]
  constructor
  · rintro ⟨_, ⟨edge, ⟨path, ⟨hpath, hsource⟩, hedge⟩, key, hkey, consumer, hconsumer,
      ⟨hlayer, hranks⟩, rfl⟩, rfl, rfl⟩
    exact ⟨path, hpath, hsource, edge, hedge, hkey, hlayer, hranks, hconsumer⟩
  · rintro ⟨path, hpath, hsource, edge, hedge, hkey, hlayer, hranks, hconsumer⟩
    exact ⟨_, ⟨edge, ⟨path, ⟨hpath, hsource⟩, hedge⟩, key, hkey, consumer, hconsumer,
      ⟨hlayer, hranks⟩, rfl⟩, rfl, rfl⟩

/-- The layer of a use is the one of the module's files. -/
theorem layer_eq_of_mem_uses {use : Use} (h : use ∈ uses context)
    (hfile : IsFile context use.key layer file) : use.layer = layer := by
  obtain ⟨edge, hedge, huse⟩ := List.mem_filterMap.mp h
  obtain ⟨path, hpath, hedge⟩ := List.mem_flatMap.mp hedge
  obtain ⟨place, hplace⟩ := ImportEdge.exists_placement?_target hedge
  simp only [use?, Option.bind_eq_some_iff, Option.ite_none_right_eq_some,
    Option.some.injEq] at huse
  obtain ⟨key, hkey, consumer, hconsumer, hdownward, rfl⟩ := huse
  obtain ⟨path', hpath', placement, hplacement, hkey', rfl, -⟩ := hfile
  exact Placement.layer_eq_of_scopedKey hplace hplacement hkey hkey'

/-- The usage counts each consumer among the uses, and there is none without uses. -/
def Counts (uses : List Use) : Option Usage → Prop
  | none => uses = []
  | some usage => (∃ use ∈ uses, use.layer = usage.layer) ∧
      Consumer.Lists usage.consumers fun consumer => ∃ use ∈ uses, use.consumer = consumer

theorem Counts.step {seen : List Use} {value : Option Usage} (h : Counts seen value) (use : Use) :
    Counts (seen ++ [use]) (some (use.addTo (value.getD ⟨use.layer, []⟩))) := by
  cases value with
  | none =>
      obtain rfl : seen = [] := h
      refine ⟨⟨use, by simp, rfl⟩, ?_, ?_⟩
      · simp [Use.addTo, Consumer.insert]
      · simp [Use.addTo, Consumer.insert, eq_comm]
  | some usage =>
      obtain ⟨⟨found, hfound, hlayer⟩, hlists⟩ := h
      obtain ⟨hsorted, hmem⟩ := hlists.insert use.consumer
      refine ⟨⟨found, List.mem_append_left _ hfound, hlayer⟩, hsorted, ?_⟩
      intro consumer
      rw [Option.getD_some, Use.addTo, hmem]
      simp [or_comm, or_and_right, exists_or, eq_comm]

theorem counts_usages {value : Option Usage} (h : (usages context).get? key = value) :
    Counts ((uses context).filter (·.key = key)) value := by
  rw [← h, usages_eq_foldl]
  have hrun := Dict.get?_foldl_modify Use.key (fun use => ⟨use.layer, []⟩) Use.addTo key
    (motive := Counts) (fun seen use value _ h => h.step use) (uses context) [] .empty (by rfl)
  simpa using hrun

variable {usage : Usage}

theorem lists_of_get?_usages (h : (usages context).get? key = some usage) :
    Consumer.Lists usage.consumers (IsConsumer context key) := by
  obtain ⟨-, hsorted, hmem⟩ := counts_usages h
  refine ⟨hsorted, ?_⟩
  intro consumer
  rw [hmem, ← exists_mem_uses_iff]
  simp [and_assoc]

theorem layer_eq_of_get?_usages (h : (usages context).get? key = some usage)
    (hfile : IsFile context key layer file) : usage.layer = layer := by
  obtain ⟨⟨use, huse, hlayer⟩, -⟩ := counts_usages h
  simp only [List.mem_filter, decide_eq_true_eq] at huse
  obtain ⟨hmem, rfl⟩ := huse
  rw [← hlayer, layer_eq_of_mem_uses hmem hfile]

theorem exists_get?_usages (h : IsConsumer context key consumer) :
    ∃ usage, (usages context).get? key = some usage := by
  obtain ⟨use, huse, rfl, -⟩ := exists_mem_uses_iff.mpr h
  apply Option.ne_none_iff_exists'.mp
  intro hnone
  have hempty : (uses context).filter (·.key = use.key) = [] := counts_usages hnone
  have hmem : use ∈ (uses context).filter (·.key = use.key) := by simp [huse]
  rw [hempty] at hmem
  cases hmem

theorem consumers_ne_nil (h : (usages context).get? key = some usage) :
    usage.consumers ≠ [] := by
  obtain ⟨⟨use, huse, -⟩, hlists⟩ := counts_usages h
  exact List.ne_nil_of_mem ((hlists.2 use.consumer).mpr ⟨use, huse, rfl⟩)

/-! ## Reports -/

theorem isPlacedWell_eq_false_iff {config : Config} :
    isPlacedWell config key usage = false ↔
      usage.consumers.length < config.sharedModules.leastConsumers.toNat ∧
        ∀ only, usage.consumers = [only] → ¬ only.contains key = true := by
  unfold isPlacedWell
  split
  next only honly => simp [honly]
  next hmany =>
    simp only [Bool.or_false, decide_eq_false_iff_not, Nat.not_le, iff_self_and]
    intro _ only honly
    exact (hmany only honly).elim

/-- What is reported, together with the keys that it is reported for. -/
def reported (context : Context) : List (String × Violation) :=
  (usages context).toList.filterMap fun entry =>
    ((firstFiles context).get? entry.1).bind fun file =>
      if isPlacedWell context.config entry.1 entry.2 then none
      else some (entry.1, .atStart id file (message entry.1 entry.2))

theorem map_snd_reported (context : Context) : (reported context).map Prod.snd = check context := by
  simp only [reported, check, List.map_filterMap]
  congr
  funext entry
  cases (firstFiles context).get? entry.1 with
  | none => rfl
  | some file =>
      simp only [Option.bind_some]
      split <;> rfl

theorem mem_reported {violation : Violation} : (key, violation) ∈ reported context ↔
    ∃ usage file, (usages context).get? key = some usage ∧
      (firstFiles context).get? key = some file ∧
      isPlacedWell context.config key usage = false ∧
      violation = .atStart id file (message key usage) := by
  simp only [reported, List.mem_filterMap, Option.bind_eq_some_iff, Option.ite_none_left_eq_some,
    Option.some.injEq, Prod.mk.injEq, Dict.get?_eq_some_iff, Bool.not_eq_true]
  constructor
  · rintro ⟨⟨key, usage⟩, hentry, file, hfile, hplaced, rfl, rfl⟩
    exact ⟨usage, file, hentry, hfile, hplaced, rfl⟩
  · rintro ⟨usage, file, hentry, hfile, hplaced, rfl⟩
    exact ⟨(key, usage), hentry, file, hfile, hplaced, rfl, rfl⟩

theorem pairwise_reported (context : Context) :
    (reported context).Pairwise fun first second => first.1 < second.1 := by
  apply (usages context).sorted.filterMap
  intro first second hlt report hreport report' hreport'
  simp only [Option.bind_eq_some_iff, Option.ite_none_left_eq_some, Option.some.injEq]
    at hreport hreport'
  obtain ⟨-, -, -, rfl⟩ := hreport
  obtain ⟨-, -, -, rfl⟩ := hreport'
  exact hlt

theorem mem_reported_iff {violation : Violation} : (key, violation) ∈ reported context ↔
    IsMisplaced context key ∧ Reports context key violation := by
  rw [mem_reported]
  constructor
  · rintro ⟨usage, file, husage, hfile, hplaced, rfl⟩
    obtain ⟨layer, hfirst⟩ := isFirstFile_of_get?_firstFiles hfile
    obtain ⟨hfew, houtside⟩ := isPlacedWell_eq_false_iff.mp hplaced
    have hlists := lists_of_get?_usages husage
    have hlayer := layer_eq_of_get?_usages husage hfirst.1
    refine ⟨⟨⟨layer, file, hfirst.1⟩, usage.consumers, hlists, consumers_ne_nil husage, hfew,
      houtside⟩, layer, file, usage.consumers, hfirst, hlists, ?_⟩
    rw [← hlayer]
    rfl
  · rintro ⟨⟨-, consumers, hlists, hne, hfew, houtside⟩, layer, file, shown, hfirst, hshown, rfl⟩
    obtain ⟨consumer, hconsumer⟩ := List.exists_mem_of_ne_nil consumers hne
    obtain ⟨usage, husage⟩ := exists_get?_usages ((hlists.2 consumer).mp hconsumer)
    obtain rfl := (lists_of_get?_usages husage).eq hlists
    obtain rfl := hlists.eq hshown
    obtain rfl := layer_eq_of_get?_usages husage hfirst.1
    exact ⟨usage, file, husage, get?_firstFiles_of_isFirstFile hfirst,
      isPlacedWell_eq_false_iff.mpr ⟨hfew, houtside⟩, rfl⟩

theorem exists_reports (h : IsMisplaced context key) :
    ∃ violation, Reports context key violation := by
  obtain ⟨⟨layer, file, hfile⟩, consumers, hlists, -⟩ := h
  obtain ⟨first, hget⟩ := exists_get?_firstFiles hfile
  obtain ⟨layer, hfirst⟩ := isFirstFile_of_get?_firstFiles hget
  exact ⟨_, layer, first, consumers, hfirst, hlists, rfl⟩

/-- What is reported depends on the files and consumers of modules, and on nothing else. -/
theorem check_eq_of_iff {other : Context}
    (hleast : other.config.sharedModules.leastConsumers =
      context.config.sharedModules.leastConsumers)
    (hfiles : ∀ key layer file, IsFile other key layer file ↔ IsFile context key layer file)
    (hconsumers : ∀ key consumer, IsConsumer other key consumer ↔ IsConsumer context key consumer) :
    check other = check context := by
  have hfiles : IsFile other = IsFile context := by
    funext key layer file
    exact propext (hfiles key layer file)
  have hconsumers : IsConsumer other = IsConsumer context := by
    funext key consumer
    exact propext (hconsumers key consumer)
  have : Std.Irrefl fun first second : String × Violation => first.1 < second.1 :=
    ⟨fun report => String.lt_irrefl report.1⟩
  have : Std.Antisymm fun first second : String × Violation => first.1 < second.1 :=
    ⟨fun _ _ hlt hgt => (String.lt_asymm hlt hgt).elim⟩
  have hreported : reported other = reported context := by
    apply (pairwise_reported other).eq_of_mem_iff (pairwise_reported context)
    rintro ⟨key, violation⟩
    rw [mem_reported_iff, mem_reported_iff, IsMisplaced, IsMisplaced, Reports, Reports]
    simp only [IsFirstFile, hfiles, hconsumers, hleast]
  rw [← map_snd_reported, hreported, map_snd_reported]

/-- The misplaced modules are reported in the order of their keys, each of them once. -/
theorem check_reports_misplaced (context : Context) :
    (∃ reports : List (String × Violation), check context = reports.map Prod.snd ∧
      reports.Pairwise (fun first second => first.1 < second.1) ∧
      (∀ key, (∃ violation, (key, violation) ∈ reports) ↔ IsMisplaced context key) ∧
      ∀ key violation, (key, violation) ∈ reports → Reports context key violation) ∧
    (∀ other : Context,
      other.config.sharedModules.leastConsumers = context.config.sharedModules.leastConsumers →
      (∀ key layer file, IsFile other key layer file ↔ IsFile context key layer file) →
      (∀ key consumer, IsConsumer other key consumer ↔ IsConsumer context key consumer) →
      check other = check context) ∧
    ∀ files, (∀ path, path ∈ files ↔ path ∈ context.files) →
      check { context with files } = check context := by
  refine ⟨⟨reported context, (map_snd_reported context).symm, pairwise_reported context, ?_, ?_⟩,
    ?_, ?_⟩
  · intro key
    constructor
    · rintro ⟨violation, hmem⟩
      exact (mem_reported_iff.mp hmem).1
    · intro hmisplaced
      obtain ⟨violation, hreports⟩ := exists_reports hmisplaced
      exact ⟨violation, mem_reported_iff.mpr ⟨hmisplaced, hreports⟩⟩
  · intro key violation hmem
    exact (mem_reported_iff.mp hmem).2
  · intro other hleast hfiles hconsumers
    exact check_eq_of_iff hleast hfiles hconsumers
  · intro files hsame
    have hcandidates (path : Path) :
        path ∈ { context with files }.candidates ↔ path ∈ context.candidates := by
      simp only [Context.candidates, List.mem_filter, hsame]
      rfl
    refine check_eq_of_iff rfl ?_ ?_
    · intro key layer file
      simp only [IsFile, hcandidates]
      rfl
    · intro key consumer
      simp only [IsConsumer, hcandidates, ImportEdge.allFrom_files]
      rfl

end LayerLint.Rule.SharedModule
