import SchemaDump.Service.Routing
import SchemaDump.Proofs.CommandLine.Run
import SchemaDump.Proofs.Files.Absent
import SchemaDump.Proofs.Files.Source
import SchemaDump.Proofs.Json.Documents

/-! The program and the service. A dump that both are given comes to the same files: those that the
program leaves in a new folder, and those that the service answers with. -/
namespace SchemaDump

namespace Service

variable {body : Bytes} {s : Text}

/-- The file that an object in an answer tells of: its path and its text. -/
def fileOf? (v : Json) : Option (Text × Text) :=
  match v.field? "path".toList, v.field? "definition".toList with
  | some (.string path), some (.string definition) => some (path, definition)
  | _, _ => none

/-- The files that an answer tells of: one for each object, and one for the residual text if there
is any. -/
def files? (v : Json) : Option (List (Text × Text)) :=
  match v.field? "objects".toList, v.field? "residual".toList with
  | some (.array os), some (.string residual) =>
    (os.mapM fileOf?).map
      (· ++ if residual = [] then [] else [(Export.residualName.toList, residual)])
  | _, _ => none

theorem fileOf?_objectJson (o : Object) :
    fileOf? (objectJson o) = some (['/'].intercalate o.path, o.definition) := rfl

theorem files?_dumpJson (d : Dump) :
    files? (dumpJson d) = some (d.files.map fun e => (['/'].intercalate e.1, e.2)) := by
  have hobjects : (d.objects.map objectJson).mapM fileOf? =
      some (d.objects.map fun o => (['/'].intercalate o.path, o.definition)) :=
    Lists.mapM_map fileOf?_objectJson d.objects
  have hos : (dumpJson d).field? "objects".toList = some (.array (d.objects.map objectJson)) := rfl
  have hresidual : (dumpJson d).field? "residual".toList = some (.string d.residual) := rfl
  rw [files?, hos, hresidual]
  by_cases h : d.residual = [] <;> simp [hobjects, Dump.files, h]

theorem dumpText_eq_ok (hbody : Json.ofBytes? body = some (named [("sql", .string s)]))
    (hblank : Text.trim s ≠ []) : dumpText body = .ok s := by
  rw [dumpText, hbody]
  simp [named, Json.field?, hblank]

/-- A framework that serves the routes leads dumps to their view. -/
theorem Framework.Serves.post {framework : Framework} (h : framework.Serves) {path : String}
    (hpath : path ∈ paths) (body : Bytes) : framework "POST" path body = split body :=
  h ⟨path, "POST", split⟩ (List.mem_flatMap.mpr ⟨path, hpath, by simp⟩) body

/-- The service answers a text that is not blank with what the text comes to as a dump. -/
theorem Framework.Serves.post_dump {framework : Framework} (h : framework.Serves) {path : String}
    (hpath : path ∈ paths) (hbody : Json.ofBytes? body = some (named [("sql", .string s)]))
    (hblank : Text.trim s ≠ []) :
    framework "POST" path body = ⟨200, some (dumpJson (Dump.parse s)).render⟩ := by
  rw [h.post hpath, split, dumpText_eq_ok hbody hblank]

/-- The framework that is run serves the routes. -/
theorem serves_client : client.Serves := by
  intro route hroute body
  have hlocate : ∀ path ∈ paths, Target.locate path.toList =
      .ok { path := Utf8.encode path.toList } := by decide +kernel
  obtain ⟨path, hpath, hroute⟩ := List.mem_flatMap.mp hroute
  have hclient (method : String) : client method path body =
      answer ⟨method.toList, { path := Utf8.encode path.toList }, body⟩ := by
    rw [client, hlocate path hpath]
  simp only [paths, List.mem_cons, List.not_mem_nil, or_false] at hpath hroute
  obtain rfl | rfl := hpath <;> obtain rfl | rfl | rfl := hroute <;> exact hclient _

end Service

namespace Dump

variable {d : Dump} {q : Path} {s : Text}

theorem isName_of_mem_files {e : Path × Text} (h : e ∈ d.files) :
    e.1 ≠ [] ∧ ∀ name ∈ e.1, Path.IsName name := by
  obtain ⟨p, s⟩ := e
  obtain ⟨o, -, rfl, -⟩ | ⟨-, rfl, -⟩ := mem_files_iff.mp h
  · exact ⟨List.cons_ne_nil _ _, o.isName_of_mem_path⟩
  · have hname : Path.IsName Export.residualName.toList := by decide
    exact ⟨List.cons_ne_nil _ _, by simpa using hname⟩

/-- The path of a file as an answer has it leads to the file in the output folder. -/
theorem mem_files_iff_resolve? (out : Path) :
    (q, s) ∈ d.files ↔ ∃ e ∈ d.files.map fun e => (['/'].intercalate e.1, e.2),
      Path.resolve? out e.1 = some (out ++ q) ∧ e.2 = s := by
  have hresolve {e : Path × Text} (he : e ∈ d.files) :
      Path.resolve? out (['/'].intercalate e.1) = some (out ++ e.1) :=
    Path.resolve?_intercalate (isName_of_mem_files he).1 (isName_of_mem_files he).2 out
  constructor
  · intro hq
    exact ⟨_, List.mem_map.mpr ⟨_, hq, rfl⟩, hresolve hq, rfl⟩
  · rintro ⟨e', he', hq, rfl⟩
    obtain ⟨e, he, rfl⟩ := List.mem_map.mp he'
    rw [hresolve he, Option.some.injEq, List.append_cancel_left_eq] at hq
    exact hq ▸ he

end Dump

open CommandLine SchemaDump.Tree

variable {s : Text} {arguments : List Text} {o : Options} {base file out : Path} {t : Tree}

/-- A dump in UTF-8 that is not blank and has no carriage returns is written as it is. -/
theorem CommandLine.exists_main (hparse : Options.parse arguments = .ok o)
    (hdry : o.dryRun = false) (hfile : Path.resolve? base o.file = some file)
    (hout : Path.resolve? base o.directory = some out)
    (hread : t.read file = .ok (Utf8.encode s)) (hblank : Text.trim s ≠ []) (hcr : '\r' ∉ s) :
    ∃ r summary, main? arguments base t = some r ∧ r.status = 0 ∧
      Export.write .utf8 out t (Dump.parse s).objects (Dump.parse s).residual =
        (r.tree, .ok summary) := by
  obtain ⟨r, hrun, hstatus, htree, -⟩ := exists_run o t hfile hout
  have hmain : main? arguments base t = some r := by rw [main?, hparse]; exact hrun
  have hdecode : Encoding.utf8.decode (Utf8.encode s) = .ok s := Utf8.decode_encode s
  have hsource : Source.read t file .utf8 = .ok s := by
    rw [Source.read_eq_ok hread hdecode hblank, Source.lineFeeds_eq_self hcr]
  obtain ⟨e, hfailed, -⟩ | ⟨content, -, hdry', -⟩ |
    ⟨content, last, summary, hcontent, -, hwrite, hzero, hlast, -⟩ := process_cases o file out t
  · rw [hsource] at hfailed
    cases hfailed
  · rw [hdry] at hdry'
    cases hdry'
  · rw [hsource] at hcontent
    cases hcontent
    exact ⟨r, summary, hmain, hstatus.trans hzero, by rw [hwrite, htree, hlast]⟩

/-- A text whose objects have paths of their own is answered with some files, by any framework that
serves the routes, and the program leaves just those of them in a new folder whose paths are
allowed, when it is given the text as a file and nothing is refused in the folder. -/
theorem front_ends_agree {framework : Service.Framework} (hserves : framework.Serves)
    (hblank : Text.trim s ≠ []) (hcr : '\r' ∉ s)
    (hunique : ((Dump.parse s).objects.map Object.path).Nodup) :
    Json.ofBytes? (Utf8.encode (Service.named [("sql", .string s)]).render) =
        some (Service.named [("sql", .string s)]) ∧
      ∃ files, Service.files? (Service.dumpJson (Dump.parse s)) = some files ∧
        (∀ target ∈ ["/", "/api/split"], ∀ body,
          Json.ofBytes? body = some (Service.named [("sql", .string s)]) →
          framework "POST" target body =
            ⟨200, some (Service.dumpJson (Dump.parse s)).render⟩) ∧
        ∀ (arguments : List Text) (o : Options) (base file out : Path) (t : Tree),
          Options.parse arguments = .ok o → o.dryRun = false →
          Path.resolve? base o.file = some file → Path.resolve? base o.directory = some out →
          t.read file = .ok (Utf8.encode s) → t.IsClosed → t.get? out = none →
          t.get? out.dropLast = some .folder → t.IsOpen out →
          ∃ r, main? arguments base t = some r ∧ r.status = 0 ∧
            ∀ q content, r.tree.get? (out ++ q) = some (.file content) ↔
              (out ++ q).isAllowed = true ∧ ∃ e ∈ files,
                Path.resolve? out e.1 = some (out ++ q) ∧ content = Utf8.encode e.2 := by
  refine ⟨Json.ofBytes?_render_field _ s, _, Service.files?_dumpJson (Dump.parse s),
    fun target htarget body hbody => hserves.post_dump htarget hbody hblank, ?_⟩
  intro arguments o base file out t hparse hdry hfile hout hread hclosed habsent hparent hopen
  obtain ⟨r, summary, hmain, hzero, hwrite⟩ :=
    exists_main hparse hdry hfile hout hread hblank hcr
  refine ⟨r, hmain, hzero, fun q content => ?_⟩
  rw [Export.get?_write_eq_file_iff hclosed habsent hparent hopen hunique hwrite]
  refine and_congr_right fun _ => ?_
  constructor
  · rintro ⟨text, hq, rfl⟩
    obtain ⟨e, he, hresolve, rfl⟩ := (Dump.mem_files_iff_resolve? out).mp hq
    exact ⟨e, he, hresolve, rfl⟩
  · rintro ⟨e, he, hresolve, rfl⟩
    exact ⟨e.2, (Dump.mem_files_iff_resolve? out).mpr ⟨e, he, hresolve, rfl⟩, rfl⟩

/-- Names with slashes and letters beyond ASCII, and a statement that belongs to no object. -/
theorem front_ends_agree_beyond_ascii :
    let s := "SET x = 1;\nCREATE TABLE \"é/ü\" (a int);\nCREATE VIEW v AS SELECT 'ß';".toList
    let t : Tree := { nodes := [([['w']], .folder),
      ([['w'], "in.sql".toList], .file (Utf8.encode s))] }
    let out : Path := [['w'], "out".toList]
    Service.client.Serves ∧
      Text.trim s ≠ [] ∧ '\r' ∉ s ∧ ((Dump.parse s).objects.map Object.path).Nodup ∧
      ∃ files r, Service.files? (Service.dumpJson (Dump.parse s)) = some files ∧
        files.map Prod.fst = ["tables/public.\"é_ü\".sql".toList, "views/public.v.sql".toList,
          "residual.sql".toList] ∧
        Service.client "POST" "/" (Utf8.encode (Service.named [("sql", .string s)]).render) =
          ⟨200, some (Service.dumpJson (Dump.parse s)).render⟩ ∧
        main? ["-f".toList, "in.sql".toList, "-d".toList, "out".toList] [['w']] t = some r ∧
        r.status = 0 ∧
        r.tree.get? [['w'], "out".toList, "views".toList, "public.v.sql".toList] =
          some (.file (Utf8.encode "CREATE VIEW v AS SELECT 'ß';".toList)) ∧
        ∀ q content, r.tree.get? (out ++ q) = some (.file content) ↔
          (out ++ q).isAllowed = true ∧ ∃ e ∈ files,
            Path.resolve? out e.1 = some (out ++ q) ∧ content = Utf8.encode e.2 := by
  intro s t out
  have hblank : Text.trim s ≠ [] := by decide +kernel
  have hcr : '\r' ∉ s := by decide +kernel
  have hunique : ((Dump.parse s).objects.map Object.path).Nodup := by decide +kernel
  obtain ⟨hbody, files, hfiles, hanswer, hmain⟩ :=
    front_ends_agree Service.serves_client hblank hcr hunique
  have hparse : Options.parse ["-f".toList, "in.sql".toList, "-d".toList, "out".toList] =
      .ok { file := "in.sql".toList, directory := "out".toList } := by decide +kernel
  obtain ⟨r, hrun, hzero, htree⟩ := hmain _ _ [['w']] [['w'], "in.sql".toList] out t hparse rfl
    (by decide +kernel) (by decide +kernel) (by decide +kernel) (by decide +kernel)
    (by decide +kernel) (by decide +kernel) (isOpen_of_refusals_eq_nil rfl out)
  have hnames : (Service.files? (Service.dumpJson (Dump.parse s))).map (List.map Prod.fst) =
      some ["tables/public.\"é_ü\".sql".toList, "views/public.v.sql".toList,
        "residual.sql".toList] := by decide +kernel
  have hview : ∃ e ∈ files, Path.resolve? out e.1 =
      some (out ++ ["views".toList, "public.v.sql".toList]) ∧
        Utf8.encode "CREATE VIEW v AS SELECT 'ß';".toList = Utf8.encode e.2 := by
    have hmem : (Service.files? (Service.dumpJson (Dump.parse s))).any
        (·.contains ("views/public.v.sql".toList, "CREATE VIEW v AS SELECT 'ß';".toList)) =
          true := by decide +kernel
    rw [hfiles, Option.any_some, List.contains_iff_mem] at hmem
    exact ⟨_, hmem, by decide +kernel, rfl⟩
  rw [hfiles, Option.map_some, Option.some.injEq] at hnames
  exact ⟨Service.serves_client, hblank, hcr, hunique, files, r, hfiles, hnames,
    hanswer "/" (by decide) _ hbody, hrun, hzero, (htree _ _).mpr ⟨by decide +kernel, hview⟩, htree⟩

/-- A text and an output folder of which all is the case that is asked of them, but that of the
paths and of what may be refused, and a file of the answer that the program does not leave, though
it ends as if all were well. -/
def LacksFile (s : Text) (t : Tree) (file out : Path) : Prop :=
  Text.trim s ≠ [] ∧ '\r' ∉ s ∧ ((Dump.parse s).objects.map Object.path).Nodup ∧
    (∀ o ∈ (Dump.parse s).objects, Path.fits o.fileName = true) ∧
    t.read file = .ok (Utf8.encode s) ∧ t.IsClosed ∧ t.get? out = none ∧
    t.get? out.dropLast = some .folder ∧
    ∃ files e p r, Service.files? (Service.dumpJson (Dump.parse s)) = some files ∧ e ∈ files ∧
      Path.resolve? out e.1 = some p ∧
      main? ["-f".toList, ['/'].intercalate file, "-d".toList, ['/'].intercalate out] [] t =
        some r ∧
      r.status = 0 ∧ ∀ content, r.tree.get? p ≠ some (.file content)

/-- An object that fares badly has no file in the end. -/
theorem lacksFile_of_failed {d : Object} (hblank : Text.trim s ≠ []) (hcr : '\r' ∉ s)
    (hobjects : (Dump.parse s).objects = [d]) (hfits : Path.fits d.fileName = true)
    (hread : t.read file = .ok (Utf8.encode s)) (hclosed : t.IsClosed) (habsent : t.get? out = none)
    (hparent : t.get? out.dropLast = some .folder)
    (hfile : Path.resolve? [] (['/'].intercalate file) = some file)
    (hout : Path.resolve? [] (['/'].intercalate out) = some out)
    (hparse : Options.parse ["-f".toList, ['/'].intercalate file, "-d".toList,
      ['/'].intercalate out] =
        .ok { file := ['/'].intercalate file, directory := ['/'].intercalate out })
    (hfailed : Export.outcomeOf out t d ≠ .written) : LacksFile s t file out := by
  obtain ⟨r, summary, hmain, hzero, hwrite⟩ := exists_main hparse rfl hfile hout hread hblank hcr
  have hmem : (d.path, d.definition) ∈ (Dump.parse s).files :=
    Dump.mem_files_iff.mpr (Or.inl ⟨d, by simp [hobjects], rfl, rfl⟩)
  refine ⟨hblank, hcr, by simp [hobjects], by simpa [hobjects] using hfits, hread, hclosed, habsent,
    hparent, _, (['/'].intercalate d.path, d.definition), out ++ d.path, r,
    Service.files?_dumpJson _, List.mem_map.mpr ⟨_, hmem, rfl⟩,
    Path.resolve?_intercalate (List.cons_ne_nil _ _) d.isName_of_mem_path out, hmain, hzero, ?_⟩
  intro content hcontent
  rw [hobjects] at hwrite
  have hkept : r.tree.get? (out ++ d.path) = t.get? (out ++ d.path) := by
    refine (Export.confined_of_write hwrite).get?_eq (Export.not_isFolderOf_path out [d] d) ?_
    rintro (⟨o, ho, -⟩ | ⟨-, hq⟩)
    · rw [Export.Summary.writtenObjects, Export.summary_of_write_utf8 hwrite] at ho
      obtain ⟨ho, hwritten⟩ := Export.mem_writtenAmong_map_iff.mp ho
      exact hfailed (List.mem_singleton.mp ho ▸ hwritten)
    · exact Export.path_ne_residual out d hq
  rw [hkept, hclosed.get?_append habsent] at hcontent
  cases hcontent

/-- Deep down in the file tree the path of a file is too long, though its name is not. And where
nothing may be made in the parent folder, there will be no output folder. The file is answered by
the service and not left by the program. -/
theorem output_folder_lacks_file :
    let file : Path := ["dump.sql".toList]
    let long := "CREATE TABLE ".toList ++ List.replicate 244 'a' ++ " (a int);".toList
    let parent : Path := List.replicate 15 (List.replicate 240 'd')
    let first : Tree := { nodes := [(file, .file (Utf8.encode long))] }
    let deep := (first.makeFolders parent).1
    let short := "CREATE TABLE t (a int);".toList
    let closed : Tree :=
      { nodes := [(file, .file (Utf8.encode short)), ([['w']], .folder)]
        refusals := [((.add, [['w']]), .denied)] }
    LacksFile long deep file (parent ++ [List.replicate 240 'd']) ∧
      LacksFile short closed file [['w'], "out".toList] := by
  intro file long parent first deep short closed
  constructor
  · let out := parent ++ [List.replicate 240 'd']
    let table : Object := ⟨.table, "public".toList, List.replicate 244 'a', long,
      some ("public.".toList ++ List.replicate 244 'a'), none, none, none⟩
    have hmake : first.canMake parent = true := by decide +kernel
    have hclosed : deep.IsClosed := IsClosed.makeFolders (by decide +kernel) parent
    have hparent : deep.get? out.dropLast = some .folder := by
      rw [List.dropLast_concat]
      exact get?_makeFolders hmake (List.prefix_refl parent)
    have habsent : deep.get? out = none := by
      have hmade : Confined (· <+: parent) (fun _ => False) first deep :=
        confined_makeFolders _ parent
      exact hmade.get?_eq (Lists.not_isPrefix_concat _ _) id
    have hrefusals : deep.refusals = [] := refusals_makeFolders first parent
    refine lacksFile_of_failed (d := table) (by decide +kernel) (by decide +kernel)
      (by decide +kernel) (by decide +kernel) ?_ hclosed habsent hparent (by decide +kernel)
      (Path.resolve?_intercalate (by decide) (by decide) []) (by decide +kernel) ?_
    · exact (keeps_makeFolders first parent).read_eq_ok hrefusals (by decide +kernel)
    · rw [ne_eq, Export.outcomeOf_eq_written_iff hclosed habsent hparent
        (isOpen_of_refusals_eq_nil hrefusals out)]
      decide +kernel
  · exact lacksFile_of_failed (d := ⟨.table, "public".toList, ['t'], short,
      some "public.t".toList, none, none, none⟩) (by decide +kernel) (by decide +kernel)
      (by decide +kernel) (by decide +kernel) (by decide +kernel) (by decide +kernel)
      (by decide +kernel) (by decide +kernel) (by decide +kernel) (by decide +kernel)
      (by decide +kernel) (by decide +kernel)

end SchemaDump
