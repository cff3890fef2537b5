import LayerLint.Command.Run
import LayerLint.Proofs.Config.Json
import LayerLint.Proofs.Context.NewFile
import LayerLint.Proofs.Discovery.NewFile
import LayerLint.Proofs.Json.Commented

/-! # Writing the default settings

The settings file that is written holds the defaults, which are in force without any file. It is no
file below a layer, and compiler settings learn nothing from it. So a project is checked as before.
-/

namespace LayerLint.Command

variable {tree : FileTree} {entries : List (String × FileTree)} {names : List String}
variable {path : Path} {loaded : LoadedConfig}

/-! ## The written file -/

/-- What is written into a settings file. -/
def defaultText : String :=
  Config.standard.toJson.pretty ++ "\n"

theorem isSpace_of_mem_lineFeed : ∀ c ∈ "\n".toList, Json.Token.isSpace c = true := by
  have hchars : "\n".toList = ['\n'] := rfl
  rw [hchars, List.forall_mem_singleton]
  rfl

theorem parse_defaultText : Config.parse defaultText = .ok .standard :=
  Config.parse_pretty_append .standard isSpace_of_mem_lineFeed

theorem parse?_defaultText : Json.parse? defaultText = some Config.standard.toJson :=
  Json.parse?_pretty_append (Config.isWritable_toJson .standard) isSpace_of_mem_lineFeed

theorem decode?_toUTF8 (text : String) : Text.decode? text.toUTF8 = some text :=
  dif_pos text.isValidUTF8

theorem text?_of_bytes? (h : tree.bytes? path = some defaultText.toUTF8) :
    tree.text? path = some defaultText := by
  rw [FileTree.text?, h, Option.bind_some, decode?_toUTF8]

/-- Settings files say nothing about aliases of compilers. -/
theorem document?_of_bytes? (h : tree.bytes? path = some defaultText.toUTF8) :
    CompilerSettings.document? tree path = some Config.standard.toJson := by
  rw [CompilerSettings.document?, text?_of_bytes? h, Option.bind_some,
    Json.stripComments_eq_of_parse? parse?_defaultText, parse?_defaultText]

/-! ## Where settings are looked for -/

theorem isName_configName : Path.IsName configName :=
  ⟨by decide, by decide, by decide, by decide⟩

theorem forall_isName_concat {name : String} (hnames : ∀ name ∈ names, Path.IsName name)
    (hname : Path.IsName name) : ∀ other ∈ names ++ [name], Path.IsName other :=
  List.forall_mem_append.mpr ⟨hnames, List.forall_mem_singleton.mpr hname⟩

theorem join_nestedConfigName (hnames : ∀ name ∈ names, Path.IsName name) :
    (Path.ofNames names).join ⟨nestedConfigName⟩ =
      .ofNames (names ++ ["linter"] ++ [configName]) := by
  have hnested : nestedConfigName = "linter" ++ ("/" ++ configName) := by decide
  have hrelative : (Path.mk nestedConfigName).isAbsolute = false := by decide
  have htext : ((Path.ofNames names).join ⟨nestedConfigName⟩).text =
      (Path.ofNames (names ++ ["linter"] ++ [configName])).text := by
    have hne : names ++ ["linter"] ≠ [] := List.concat_ne_nil "linter" names
    rw [Path.text_join_ofNames hnames hrelative, Path.text_ofNames_concat (names ++ ["linter"]),
      if_neg hne, Path.text_ofNames_concat names]
    simp only [hnested, String.append_assoc]
  exact congrArg Path.mk htext

theorem absolute_here (hnames : ∀ name ∈ names, Path.IsName name) :
    absolute (.ofNames names) ⟨"."⟩ = .ofNames names := by
  have hcomponents : (Path.mk ".").components.filter (· != .here) = [] := by decide
  have hrelative : (Path.mk ".").isAbsolute = false := by decide
  have hplain : (Text.beforeEnd? "/" (Path.mk ".").text).isSome = false := by decide
  rw [absolute, hcomponents, hrelative, hplain, List.append_nil, Path.components_ofNames hnames]
  rfl

/-- Without a settings file the defaults are in force. -/
theorem load_without_file {root : Path}
    (h : ∀ name ∈ configNames, tree.hasFile (root.join ⟨name⟩) = false) :
    Config.load tree (configPath tree root none) =
      .ok ⟨.standard, root.join ⟨nestedConfigName⟩, false⟩ := by
  have hnone : (configNames.map fun name => root.join ⟨name⟩).find? tree.hasFile = none := by
    rw [List.find?_eq_none]
    intro path hpath
    obtain ⟨name, hname, rfl⟩ := List.mem_map.mp hpath
    rw [h name hname]
    exact Bool.false_ne_true
  have hpath : configPath tree root none = root.join ⟨nestedConfigName⟩ := by
    rw [configPath, hnone]
    rfl
  rw [hpath, Config.load, h nestedConfigName (by decide), if_neg Bool.false_ne_true]

/-- The written settings are the defaults, whether or not the file can be reached. -/
theorem exists_load_with_file {later : FileTree} (hnames : ∀ name ∈ names, Path.IsName name)
    (hadds : tree.Adds later (.ofNames (names ++ [configName])))
    (hbytes : later.bytes? (.ofNames (names ++ [configName])) = some defaultText.toUTF8 ∨
      later.bytes? (.ofNames (names ++ [configName])) = none)
    (h : ∀ name ∈ configNames, tree.hasFile ((Path.ofNames names).join ⟨name⟩) = false) :
    ∃ path configLoaded, Config.load later (configPath later (.ofNames names) none) =
      .ok ⟨.standard, path, configLoaded⟩ := by
  have hjoin := Path.join_ofNames hnames isName_configName
  rcases hbytes with hbytes | hnone
  · have hfile : later.hasFile ((Path.ofNames names).join ⟨configName⟩) = true := by
      rw [hjoin, FileTree.hasFile_eq_isSome, hbytes]
      rfl
    have hpath : configPath later (.ofNames names) none =
        (Path.ofNames names).join ⟨configName⟩ := by
      rw [configPath, configNames, List.map_cons, List.find?_cons_of_pos hfile]
      rfl
    refine ⟨(Path.ofNames names).join ⟨configName⟩, true, ?_⟩
    rw [hpath, Config.load, if_pos hfile, hjoin, text?_of_bytes? hbytes]
    simp only [parse_defaultText]
    rfl
  · refine ⟨_, false, load_without_file ?_⟩
    have hall := forall_isName_concat hnames isName_configName
    have hsame {others : List String} (hothers : ∀ name ∈ others, Path.IsName name)
        (hne : others ≠ names ++ [configName]) :
        later.hasFile (.ofNames others) = tree.hasFile (.ofNames others) :=
      hadds.hasFile_eq (Path.isAbsolute_ofNames _) (Path.normalize_ofNames hothers)
        fun heq => hne (Path.eq_of_ofNames_eq hothers hall heq)
    intro name hname
    have hfile := h name hname
    simp only [configNames, List.mem_cons, List.not_mem_nil, or_false] at hname
    rcases hname with rfl | rfl | rfl
    · rw [hjoin, FileTree.hasFile_eq_isSome, hnone]
      rfl
    · have hdotted : Path.IsName ".fla-lint.json" := ⟨by decide, by decide, by decide, by decide⟩
      rw [Path.join_ofNames hnames hdotted] at hfile ⊢
      rw [hsame (forall_isName_concat hnames hdotted) (by simp [configName]), hfile]
    · have hlinter : Path.IsName "linter" := ⟨by decide, by decide, by decide, by decide⟩
      rw [join_nestedConfigName hnames] at hfile ⊢
      rw [hsame (forall_isName_concat (forall_isName_concat hnames hlinter) isName_configName)
        (by simp), hfile]

/-! ## Checking before and after -/

/-- The report on a directory with its entries. -/
def reportOn (tree : FileTree) (root : Path) (entries : List (String × FileTree))
    (loaded : LoadedConfig) : Report :=
  ((Context.prepared tree root loaded.config true).withListed
    ((FileTree.directory entries).listed root loaded.config.ignoreDirs)).report ruleBook
    (root.relativeTo loaded.path) loaded.loaded

theorem run_ofLoaded (hnames : ∀ name ∈ names, Path.IsName name)
    (hfind : tree.find? (.ofNames names) = some (.directory entries)) (loaded : LoadedConfig) :
    (Analysis.ofLoaded (.ofNames names) loaded).run tree ruleBook =
      .ok (reportOn tree (.ofNames names) entries loaded) := by
  have hroot : (Analysis.ofLoaded (.ofNames names) loaded).normalRoot = .ofNames names :=
    Path.normalize_ofNames hnames
  rw [Analysis.run, Analysis.context_eq _ (hroot.symm ▸ hfind), Analysis.shownConfigPath, hroot]
  rfl

theorem check_here (hnames : ∀ name ∈ names, Path.IsName name)
    (hfind : tree.find? (.ofNames names) = some (.directory entries))
    (hload : Config.load tree (configPath tree (.ofNames names) none) = .ok loaded)
    (format : Format) :
    check ⟨tree, .ofNames names, none⟩ "." format none =
      .reported (reportOn tree (.ofNames names) entries loaded)
        (format.render (reportOn tree (.ofNames names) entries loaded) ++ "\n") := by
  have hdirectory : tree.hasDirectory (.ofNames names) = true := by
    rw [FileTree.hasDirectory, hfind]
  simp only [check, absolute_here hnames, hdirectory, hload, run_ofLoaded hnames hfind]
  rfl

theorem relativeTo_ofNames_concat {name : String} (hnames : ∀ name ∈ names, Path.IsName name)
    (hname : Path.IsName name) :
    (Path.ofNames names).relativeTo (.ofNames (names ++ [name])) = name := by
  have hbelow : (Path.ofNames (names ++ [name])).normalComponents =
      (Path.ofNames names).normalComponents ++ [.name name] := by
    rw [Path.normalComponents_ofNames (forall_isName_concat hnames hname),
      Path.normalComponents_ofNames hnames, List.map_append]
    rfl
  rw [Path.relativeTo_of_append hbelow]
  rfl

/-- What a walk lists lies below its root. -/
theorem exists_names_of_mem_listed (hnames : ∀ name ∈ names, Path.IsName name)
    (hnamed : (FileTree.directory entries).IsNamed) {ignored : List String} :
    ∀ entry ∈ (FileTree.directory entries).listed (.ofNames names) ignored,
      ∃ below : List String, (∀ name ∈ below, Path.IsName name) ∧
        entry.1 = .ofNames (names ++ below) := by
  rintro ⟨path, node⟩ hentry
  obtain ⟨-, below, hreach, rfl⟩ := FileTree.mem_listed_iff.mp hentry
  have hbelow := hreach.isName hnamed
  exact ⟨below, hbelow, FileTree.pathTo_ofNames hnames hbelow⟩

/-- Compiler settings find the same aliases beside the written file. -/
theorem ofDirectory_insert (hnames : ∀ name ∈ names, Path.IsName name)
    (hfind : tree.nodeAt? names = some (.directory entries))
    (habsent : entries.lookup configName = none) :
    Discovery.ofDirectory (tree.insert (names ++ [configName]) (.file defaultText.toUTF8))
        (.ofNames names) = Discovery.ofDirectory tree (.ofNames names) := by
  have hall := forall_isName_concat hnames isName_configName
  refine Discovery.ofDirectory_eq (FileTree.adds_insert hall hfind habsent _) ?_ ?_
    (Path.isAbsolute_ofNames names)
  · intro name hname
    rw [Path.fileName?_ofNames_concat hall] at hname
    cases hname
    decide
  · intro value hvalue
    rcases FileTree.bytes?_insert_new hall hfind habsent defaultText.toUTF8 with hbytes | hnone
    · rw [document?_of_bytes? hbytes] at hvalue
      cases hvalue
      exact ⟨rfl, rfl⟩
    · rw [CompilerSettings.document?, FileTree.text?, hnone] at hvalue
      cases hvalue

/-- The written file is not seen by rules. -/
theorem reportOn_insert (hnames : ∀ name ∈ names, Path.IsName name)
    (hlayer : ∀ name, (Path.ofNames names).fileName? = some name → name ∉ Layer.names)
    (hnamed : (FileTree.directory entries).IsNamed)
    (hfind : tree.nodeAt? names = some (.directory entries))
    (habsent : entries.lookup configName = none) (path other : Path)
    (configLoaded otherLoaded : Bool) :
    reportOn (tree.insert (names ++ [configName]) (.file defaultText.toUTF8)) (.ofNames names)
        (entries ++ [(configName, .file defaultText.toUTF8)]) ⟨.standard, other, otherLoaded⟩ =
      { reportOn tree (.ofNames names) entries ⟨.standard, path, configLoaded⟩ with
        configPath := (Path.ofNames names).relativeTo other
        configLoaded := otherLoaded } := by
  have hjoin := Path.join_ofNames hnames isName_configName
  have hprepared : Context.prepared
      (tree.insert (names ++ [configName]) (.file defaultText.toUTF8)) (.ofNames names) .standard
        true = Context.prepared tree (.ofNames names) .standard true := by
    rw [Context.prepared, Context.prepared, ofDirectory_insert hnames hfind habsent]
  have hmetadata : ((Path.ofNames names).join ⟨configName⟩).fileName? ≠ some metadataName := by
    rw [hjoin, Path.fileName?_ofNames_concat (forall_isName_concat hnames isName_configName)]
    decide
  have hlayers : ∀ layer ∈ Layer.names, '/' ∉ layer.toList ∧ '\\' ∉ layer.toList := by decide
  have houtside : (Context.prepared tree (.ofNames names) .standard true).inLayerScope
      ((Context.prepared tree (.ofNames names) .standard true).relative
        ((Path.ofNames names).join ⟨configName⟩)) = false := by
    change Layer.occursIn Layer.names ((Path.ofNames names).relativeTo _) = false
    rw [hjoin, relativeTo_ofNames_concat hnames isName_configName]
    decide +kernel
  have hroot : (Context.prepared tree (.ofNames names) .standard true).root = .ofNames names := rfl
  obtain ⟨hfiles, hdirectories⟩ := FileTree.listed_append Config.standard.ignoreDirs hmetadata
  have hlooks := Context.withListed_looksLike hroot hnames hlayer hlayers
    (exists_names_of_mem_listed hnames hnamed) houtside hfiles hdirectories
  have hreport := hlooks.report_eq (fun _ => Rule.isSteady_of_mem_ruleBook)
    ((Path.ofNames names).relativeTo other) otherLoaded
  rw [reportOn, hprepared]
  exact hreport.symm

/-! ## The commands -/

theorem run_check {arguments : List String} {format : Format} {directory : Path}
    (h : Invocation.ofArguments arguments none = .ok ⟨.check "." format, none⟩) :
    run ⟨tree, directory, none⟩ arguments = check ⟨tree, directory, none⟩ "." format none := by
  rw [run, h]

/-- Where nothing has the name of a settings file, `init` writes one. -/
theorem run_init {setup : List String} {force : Bool}
    (hnames : ∀ name ∈ names, Path.IsName name)
    (hfind : tree.nodeAt? names = some (.directory entries))
    (habsent : entries.lookup configName = none)
    (h : Invocation.ofArguments setup none = .ok ⟨.init force, none⟩) :
    run ⟨tree, .ofNames names, none⟩ setup =
      ⟨0, initMessage, "", some (.ofNames (names ++ [configName]), defaultText)⟩ := by
  have hnew : tree.find? (.ofNames (names ++ [configName])) = none := by
    apply FileTree.find?_ofNames_eq_none (forall_isName_concat hnames isName_configName)
    rw [FileTree.nodeAt?_append, hfind, Option.bind_some, FileTree.nodeAt?, FileTree.entries,
      habsent]
    rfl
  have hdirectory : tree.hasDirectory (.ofNames (names ++ [configName])) = false := by
    rw [FileTree.hasDirectory, hnew]
  simp only [run, h, init, Path.join_ofNames hnames isName_configName, hnew, hdirectory]
  rfl

theorem apply_init (tree : FileTree) (hnames : ∀ name ∈ names, Path.IsName name) :
    Outcome.apply ⟨0, initMessage, "", some (.ofNames (names ++ [configName]), defaultText)⟩ tree =
      tree.insert (names ++ [configName]) (.file defaultText.toUTF8) := by
  have hnamesOf := Path.namesOf_ofNames (forall_isName_concat hnames isName_configName)
  rw [Outcome.apply]
  exact congrArg (tree.insert · _) hnamesOf

/-- What `shop` holds: compiler settings that extend the file yet to be written, and an index file
below a layer. -/
def shopEntries : List (String × FileTree) :=
  [("tsconfig.json", .file "\x7b\"extends\":\"./fla-lint.config.json\"\x7d".toUTF8),
    ("_pages", .directory [("index.ts", .file .empty)])]

def shop : FileTree :=
  .directory [("shop", .directory shopEntries)]

end LayerLint.Command
