import ResourceLang.Command.Run
import ResourceLang.Proofs.BytePlaces
import ResourceLang.Proofs.SourceIds

/-!
Files that are listed independently. A run loads all of its files before it lists the first one, but
the tokens of a text are the same in every source, and a diagnostic names the file by its own path.
So each path prints what it would print alone: the runs on single paths, one after another, are the
run on all of them, but for the files that cannot be read, which are reported in front of the
others.
-/

set_option autoImplicit false
set_option relaxedAutoImplicit false

namespace ResourceLang.Proofs.SeparateFiles

open Command

open ScannerRun (run_eq tokenize_eq)
open BytePlaces (opened ofFile?_eq_opened)
open RepeatedCalls (resume_of_none)
open SourceIds (address tells_of_get?)

/-- The names that the options go by. -/
def optionNames : List String := ["--positions", "-p", "--human", "-H"]

/-- The arguments for one path alone, with the options that are given. -/
def alone (args : List String) (path : String) : List String :=
  args.filter (· ∈ optionNames) ++ [path]

/-- What a run over one file comes to, by what reading it gives. -/
def report (request : Request) (path : String) : Except FileError String → Outcome
  | .error error => ⟨"", s!"{path}: {error.message}\n", true⟩
  | .ok text =>
    match tokenize text with
    | .ok tokens => ⟨tokenLines request path tokens, "", false⟩
    | .error error =>
      ⟨"", s!"{address (Diagnostic.placeOf error) (some ⟨path, text⟩)}: error: {error.message}\n",
        true⟩

section

variable (read : String → Except FileError String)

def isLoaded (path : String) : Bool := (read path).isOk

/-- A file that can be read, but whose text is no list of tokens. -/
def isRefused (path : String) : Bool := (read path).toOption.any fun text ↦ !(tokenize text).isOk

/-- What the run over all paths comes to, by what a run over each of them does. -/
structure Separate (paths : List String) (each : String → Outcome) (whole : Outcome) : Prop where
  stdout : whole.stdout = String.join (paths.map fun path ↦ (each path).stdout)
  stderr : whole.stderr =
    String.join ((paths.filter fun path ↦ !isLoaded read path).map fun path ↦ (each path).stderr) ++
      String.join ((paths.filter (isRefused read)).map fun path ↦ (each path).stderr)
  exitCode : whole.exitCode = if ∃ path ∈ paths, (each path).exitCode = 1 then 1 else 0

end

variable {read : String → Except FileError String} {request : Request} {map : Sources}
  {id : SourceId} {args paths : List String} {path text : String}

/-! ### Options -/

theorem eraseP_concat {α : Type} {p : α → Bool} {a : α} (ha : p a = false) (l : List α) :
    (l ++ [a]).eraseP p = l.eraseP p ++ [a] := by
  rw [List.eraseP_append]
  split
  · rfl
  · rename_i hnone
    have hall : ∀ b ∈ l, ¬ p b = true := by simpa using hnone
    rw [List.eraseP_of_forall_not hall, List.eraseP_cons_of_neg (by simp [ha]), List.eraseP_nil]

theorem takeOption_concat {long short : String} (hlong : path ≠ long) (hshort : path ≠ short)
    (args : List String) : takeOption long short (args ++ [path]) =
      ((takeOption long short args).1, (takeOption long short args).2 ++ [path]) := by
  unfold takeOption
  dsimp only
  rw [eraseP_concat (by simp [hlong, hshort])]
  simp [hlong, hshort]

theorem takeOption_filter {long short : String} (hlong : long ∈ optionNames)
    (hshort : short ∈ optionNames) (args : List String) :
    takeOption long short (args.filter (· ∈ optionNames)) =
      ((takeOption long short args).1,
        (takeOption long short args).2.filter (· ∈ optionNames)) := by
  have hnamed : ∀ arg : String, (decide (arg = long) || decide (arg = short)) = true →
      arg ∈ optionNames := by
    intro arg harg
    rw [Bool.or_eq_true, decide_eq_true_eq, decide_eq_true_eq] at harg
    rcases harg with rfl | rfl
    · exact hlong
    · exact hshort
  unfold takeOption
  dsimp only
  have hboth : (fun arg : String ↦
      (decide (arg = long) || decide (arg = short)) && decide (arg ∈ optionNames)) =
      fun arg ↦ decide (arg = long) || decide (arg = short) := by
    funext arg
    exact Bool.and_eq_left_iff_imp.mpr fun harg ↦ decide_eq_true (hnamed arg harg)
  rw [List.any_filter, List.eraseP_filter, hboth]
  simp only [Bool.and_comm, hboth]

/-- A path alone is asked for with the same options. -/
theorem ofArgs_alone (hnames : ∀ other ∈ (Request.ofArgs args).paths, other ∉ optionNames)
    (hpath : path ∉ optionNames) :
    Request.ofArgs (alone args path) = { Request.ofArgs args with paths := [path] } := by
  have hne : ∀ name ∈ optionNames, path ≠ name := fun name hname heq ↦ hpath (heq ▸ hname)
  have hnone : (Request.ofArgs args).paths.filter (· ∈ optionNames) = [] := by
    simpa [List.filter_eq_nil_iff] using hnames
  unfold Request.ofArgs at hnone ⊢
  unfold alone
  dsimp only at hnone ⊢
  rw [takeOption_concat (hne _ (by decide)) (hne _ (by decide)),
    takeOption_filter (by decide) (by decide)]
  dsimp only
  rw [takeOption_concat (hne _ (by decide)) (hne _ (by decide)),
    takeOption_filter (by decide) (by decide)]
  dsimp only
  rw [hnone]
  rfl

/-! ### Tokens -/

/-- The token in another source. -/
def within (source : Option SourceId) (token : Token) : Token := ⟨token.lexeme, token.place, source⟩

def stepWithin (source : Option SourceId) : Scanner.Step → Scanner.Step
  | .token token after => .token (within source token) after
  | step => step

theorem step_eq_stepWithin (source : Option SourceId) (scanner : Scanner) :
    scanner.step source = stepWithin source (scanner.step none) := by
  unfold Scanner.step
  dsimp only
  split
  · rfl
  · split <;> rfl

theorem run_within (source : Option SourceId) (done : List Token) (scanner : Scanner) :
    scanner.run source (done.map (within source)) =
      ((scanner.run none done).1.map (List.map (within source)), (scanner.run none done).2) := by
  induction done, scanner using Scanner.run.induct none with
  | case1 done scanner after hstep =>
    rw [run_eq, step_eq_stepWithin, run_eq, hstep]
    simp only [stepWithin, Except.map, List.map_reverse]
  | case2 done scanner error after hstep =>
    rw [run_eq, step_eq_stepWithin, run_eq, hstep]
    rfl
  | case3 done scanner token after hstep ih =>
    rw [run_eq, step_eq_stepWithin, run_eq, hstep]
    exact ih

/-- The source of a text shows in its tokens and in nothing else. -/
theorem resume_opened (source : Option SourceId) (text : String) :
    (opened source text).resume.1 = (tokenize text).map (List.map (within source)) := by
  have hrun : (Scanner.ofText text).run source [] = _ := run_within source [] (.ofText text)
  rw [resume_of_none rfl hrun, tokenize_eq]

theorem tokenLines_within (source : Option SourceId) (tokens : List Token) :
    tokenLines request path (tokens.map (within source)) = tokenLines request path tokens := by
  unfold tokenLines
  rw [List.length_map, List.map_map]
  rfl

theorem listFile_eq_report (h : map.get? id = some ⟨path, text⟩) :
    listFile request map id = report request path (.ok text) := by
  have hresume := resume_opened (some id) text
  rw [listFile, ofFile?_eq_opened, h]
  dsimp only [Option.map_some]
  rw [hresume, report]
  cases tokenize text with
  | ok tokens =>
    dsimp only [Except.map]
    rw [tokenLines_within]
  | error error =>
    have hplace : map.describe (some id) (Diagnostic.placeOf error) =
        address (Diagnostic.placeOf error) (some ⟨path, text⟩) :=
      (tells_of_get? h).location ⟨.plain .identifier "", Diagnostic.placeOf error, some id⟩ rfl
    have hmark : ": error: " = ": " ++ ("error" ++ ": ") := rfl
    dsimp only [Except.map, Diagnostic.ofLexError, Diagnostic.error, Diagnostic.render,
      Severity.name, toString]
    rw [hplace, hmark]
    simp only [String.append_assoc]

/-! ### Outcomes -/

theorem silent_append (outcome : Outcome) : Outcome.silent.append outcome = outcome := by
  simp [Outcome.append, Outcome.silent]

theorem append_silent (outcome : Outcome) : outcome.append .silent = outcome := by
  simp [Outcome.append, Outcome.silent]

instance : Std.Associative Outcome.append :=
  ⟨fun first second third ↦ by simp only [Outcome.append, String.append_assoc, Bool.or_assoc]⟩

theorem concat_cons (outcome : Outcome) (outcomes : List Outcome) :
    Outcome.concat (outcome :: outcomes) = outcome.append (.concat outcomes) := by
  have hassoc : outcomes.foldl Outcome.append (outcome.append .silent) =
      outcome.append (outcomes.foldl Outcome.append .silent) := List.foldl_assoc
  rw [Outcome.concat, List.foldl_cons, silent_append, Outcome.concat, ← hassoc, append_silent]

theorem stdout_concat (outcomes : List Outcome) :
    (Outcome.concat outcomes).stdout = String.join (outcomes.map Outcome.stdout) := by
  induction outcomes with
  | nil => rfl
  | cons outcome outcomes ih => rw [concat_cons, List.map_cons, String.join_cons, ← ih]; rfl

theorem stderr_concat (outcomes : List Outcome) :
    (Outcome.concat outcomes).stderr = String.join (outcomes.map Outcome.stderr) := by
  induction outcomes with
  | nil => rfl
  | cons outcome outcomes ih => rw [concat_cons, List.map_cons, String.join_cons, ← ih]; rfl

theorem failed_concat (outcomes : List Outcome) :
    (Outcome.concat outcomes).failed = outcomes.any Outcome.failed := by
  induction outcomes with
  | nil => rfl
  | cons outcome outcomes ih => rw [concat_cons, List.any_cons, ← ih]; rfl

theorem exitCode_eq_one_iff (outcome : Outcome) : outcome.exitCode = 1 ↔ outcome.failed = true := by
  unfold Outcome.exitCode
  split <;> simp [*]

/-- What prints nothing may be left out. -/
theorem join_filter {α : Type} {p : α → Bool} {f : α → String} {l : List α}
    (h : ∀ a ∈ l, p a = false → f a = "") :
    String.join ((l.filter p).map f) = String.join (l.map f) := by
  induction l with
  | nil => rfl
  | cons a l ih =>
    obtain ⟨ha, hl⟩ := List.forall_mem_cons.mp h
    cases hp : p a with
    | true =>
        rw [List.filter_cons_of_pos hp, List.map_cons, String.join_cons, ih hl, List.map_cons,
          String.join_cons]
    | false =>
      rw [List.filter_cons_of_neg (by simp [hp]), ih hl, List.map_cons, String.join_cons, ha hp,
        String.empty_append]

theorem join_eq_empty {α : Type} {f : α → String} {l : List α} (h : ∀ a ∈ l, f a = "") :
    String.join (l.map f) = "" := by
  have hnone : l.filter (fun _ ↦ false) = [] := List.filter_false l
  rw [← join_filter (fun a ha _ ↦ h a ha), hnone, List.map_nil, String.join_nil]

/-! ### Loading -/

theorem isLoaded_of_ok (h : read path = .ok text) : isLoaded read path = true := by
  rw [isLoaded, h]
  rfl

theorem isLoaded_of_error {error : FileError} (h : read path = .error error) :
    isLoaded read path = false := by
  rw [isLoaded, h]
  rfl

theorem isLoaded_of_isRefused (h : isRefused read path = true) : isLoaded read path = true := by
  rw [isRefused] at h
  cases hread : read path with
  | ok text => exact isLoaded_of_ok hread
  | error error =>
    rw [hread] at h
    cases h

/-- The files of the paths that can be read. -/
def texts (read : String → Except FileError String) (paths : List String) : List SourceText :=
  paths.filterMap fun path ↦ (read path).toOption.map (SourceText.mk path)

theorem texts_of_ok (h : read path = .ok text) (paths : List String) :
    texts read (path :: paths) = ⟨path, text⟩ :: texts read paths := by
  simp [texts, h, Except.toOption]

theorem texts_of_error {error : FileError} (h : read path = .error error) (paths : List String) :
    texts read (path :: paths) = texts read paths := by
  simp [texts, h, Except.toOption]

/-- The files are put into the map in the order of their paths, and those that cannot be read are
reported. -/
structure Loaded (read : String → Except FileError String) (request : Request) (map : Sources)
    (paths : List String) (after : Sources × List SourceId × Outcome) : Prop where
  files : after.1.files = map.files ++ (texts read paths).map some
  ids : after.2.1.map after.1.get? = (texts read paths).map some
  reports : after.2.2 = .concat ((paths.filter fun path ↦ !isLoaded read path).map fun path ↦
    report request path (read path))

theorem load_of_ok (h : read path = .ok text) (map : Sources) (paths : List String) :
    load read map (path :: paths) =
      ((load read (map.insert path text).2 paths).1,
        (map.insert path text).1 :: (load read (map.insert path text).2 paths).2.1,
        (load read (map.insert path text).2 paths).2.2) := by
  rw [load, h]

theorem load_of_error {error : FileError} (h : read path = .error error) (map : Sources)
    (paths : List String) :
    load read map (path :: paths) = ((load read map paths).1, (load read map paths).2.1,
      .append ⟨"", s!"{path}: {error.message}\n", true⟩ (load read map paths).2.2) := by
  rw [load, h]

variable {after : Sources × List SourceId × Outcome}

/-- The file of a path stays at its id while the others are put into the map behind it. -/
theorem Loaded.insert (hrest : Loaded read request (map.insert path text).2 paths after)
    (h : read path = .ok text) :
    Loaded read request map (path :: paths)
      (after.1, (map.insert path text).1 :: after.2.1, after.2.2) := by
  have hfiles : after.1.files = map.files ++ some ⟨path, text⟩ :: (texts read paths).map some := by
    rw [hrest.files, Sources.insert, List.append_assoc]
    rfl
  have hself : after.1.get? (map.insert path text).1 = some ⟨path, text⟩ := by
    rw [Sources.get?, hfiles]
    simp [Sources.insert]
  refine ⟨?_, ?_, ?_⟩
  · rw [texts_of_ok h, List.map_cons, hfiles]
  · rw [texts_of_ok h, List.map_cons, List.map_cons, hself, hrest.ids]
  · rw [List.filter_cons_of_neg (by simp [isLoaded_of_ok h])]
    exact hrest.reports

theorem Loaded.skip {error : FileError} (hrest : Loaded read request map paths after)
    (h : read path = .error error) : Loaded read request map (path :: paths)
      (after.1, after.2.1, .append ⟨"", s!"{path}: {error.message}\n", true⟩ after.2.2) := by
  refine ⟨?_, ?_, ?_⟩
  · rw [texts_of_error h]
    exact hrest.files
  · rw [texts_of_error h]
    exact hrest.ids
  · rw [List.filter_cons_of_pos (by simp [isLoaded_of_error h]), List.map_cons, concat_cons,
      ← hrest.reports, h]
    rfl

theorem loaded_load (read : String → Except FileError String) (request : Request) (map : Sources)
    (paths : List String) : Loaded read request map paths (load read map paths) := by
  induction paths generalizing map with
  | nil => exact ⟨(List.append_nil _).symm, rfl, rfl⟩
  | cons path paths ih =>
    cases hread : read path with
    | ok text =>
      rw [load_of_ok hread]
      exact (ih _).insert hread
    | error error =>
      rw [load_of_error hread]
      exact (ih map).skip hread

/-! ### Reports -/

theorem stdout_report_of_not_loaded (h : isLoaded read path = false) :
    (report request path (read path)).stdout = "" := by
  cases hread : read path with
  | ok text =>
    rw [isLoaded_of_ok hread] at h
    cases h
  | error error => rfl

theorem stderr_report_of_not_refused (hloaded : isLoaded read path = true)
    (h : isRefused read path = false) :
    (report request path (read path)).stderr = "" := by
  rw [isRefused] at h
  cases hread : read path with
  | ok text =>
    rw [hread] at h
    rw [report]
    cases htokens : tokenize text with
    | ok tokens => rfl
    | error error => simp [Except.toOption, htokens, Except.isOk, Except.toBool] at h
  | error error =>
    rw [isLoaded_of_error hread] at hloaded
    cases hloaded

/-! ### Runs -/

theorem map_listFile {ids : List SourceId} {files : List SourceText}
    (h : ids.map map.get? = files.map some) :
    ids.map (listFile request map) = files.map fun file ↦
      report request file.path (.ok file.text) := by
  induction ids generalizing files with
  | nil =>
    obtain rfl : files = [] := by simpa using h.symm
    rfl
  | cons id ids ih =>
    cases files with
    | nil => cases h
    | cons file files =>
      obtain ⟨hfile, hfiles⟩ := List.cons.inj h
      rw [List.map_cons, List.map_cons, ih hfiles, listFile_eq_report hfile]

theorem map_texts (read : String → Except FileError String) (request : Request)
    (paths : List String) :
    (texts read paths).map (fun file ↦ report request file.path (.ok file.text)) =
      (paths.filter (isLoaded read)).map fun path ↦ report request path (read path) := by
  induction paths with
  | nil => rfl
  | cons path paths ih =>
    cases hread : read path with
    | ok text =>
      rw [List.filter_cons_of_pos (isLoaded_of_ok hread), List.map_cons, ← ih, texts_of_ok hread,
        List.map_cons, hread]
    | error error =>
      rw [List.filter_cons_of_neg (by simp [isLoaded_of_error hread]), ← ih, texts_of_error hread]

/-- A run reports the files that cannot be read, and then lists the others. -/
theorem runFiles_eq (request : Request) (read : String → Except FileError String) :
    runFiles request read =
      .append (.concat ((request.paths.filter fun path ↦ !isLoaded read path).map fun path ↦
          report request path (read path)))
        (.concat ((request.paths.filter (isLoaded read)).map fun path ↦
          report request path (read path))) := by
  have hloaded := loaded_load read request .empty request.paths
  rw [← hloaded.reports, ← map_texts, ← map_listFile hloaded.ids]
  rfl

theorem run_single (request : Request) (read : String → Except FileError String)
    (input : Except FileError String) (path : String) :
    run { request with paths := [path] } read input = report request path (read path) := by
  have hrun : run { request with paths := [path] } read input =
    runFiles { request with paths := [path] } read := rfl
  rw [hrun, runFiles_eq]
  dsimp only
  cases hread : read path with
  | ok text =>
    have hloaded := isLoaded_of_ok hread
    rw [List.filter_cons_of_neg (by simp [hloaded]), List.filter_cons_of_pos hloaded,
      List.filter_nil, List.filter_nil, List.map_singleton, hread, concat_cons, List.map_nil]
    exact (silent_append _).trans (append_silent _)
  | error error =>
    have hloaded := isLoaded_of_error hread
    rw [List.filter_cons_of_pos (by simp [hloaded]), List.filter_cons_of_neg (by simp [hloaded]),
      List.filter_nil, List.filter_nil, List.map_singleton, hread, concat_cons, List.map_nil]
    exact (append_silent _).trans (append_silent _)

theorem Separate.congr {each other : String → Outcome} {whole : Outcome}
    (h : Separate read paths each whole) (hsame : ∀ path ∈ paths, each path = other path) :
    Separate read paths other whole := by
  refine ⟨?_, ?_, ?_⟩
  · rw [h.stdout]
    congr 1
    exact List.map_congr_left fun path hpath ↦ congrArg Outcome.stdout (hsame path hpath)
  · rw [h.stderr]
    congr 2
    · exact List.map_congr_left fun path hpath ↦
        congrArg Outcome.stderr (hsame path (List.mem_of_mem_filter hpath))
    · exact List.map_congr_left fun path hpath ↦
        congrArg Outcome.stderr (hsame path (List.mem_of_mem_filter hpath))
  · have hfails : (∃ path ∈ paths, (each path).exitCode = 1) ↔
        ∃ path ∈ paths, (other path).exitCode = 1 := by
      refine exists_congr fun path ↦ and_congr_right fun hpath ↦ ?_
      rw [hsame path hpath]
    rw [h.exitCode]
    simp only [hfails]

theorem failed_runFiles_iff (request : Request) (read : String → Except FileError String) :
    (runFiles request read).failed = true ↔
      ∃ path ∈ request.paths, (report request path (read path)).failed = true := by
  rw [runFiles_eq, Outcome.append, failed_concat, failed_concat, List.any_map, List.any_map,
    Bool.or_eq_true, List.any_eq_true, List.any_eq_true]
  constructor
  · rintro (⟨path, hpath, hfailed⟩ | ⟨path, hpath, hfailed⟩)
    · exact ⟨path, List.mem_of_mem_filter hpath, hfailed⟩
    · exact ⟨path, List.mem_of_mem_filter hpath, hfailed⟩
  · rintro ⟨path, hpath, hfailed⟩
    cases hloaded : isLoaded read path with
    | true => exact .inr ⟨path, List.mem_filter.mpr ⟨hpath, hloaded⟩, hfailed⟩
    | false => exact .inl ⟨path, List.mem_filter.mpr ⟨hpath, by simp [hloaded]⟩, hfailed⟩

theorem separate_runFiles (request : Request) (read : String → Except FileError String) :
    Separate read request.paths (fun path ↦ report request path (read path))
      (runFiles request read) := by
  have hunread : String.join ((request.paths.filter fun path ↦ !isLoaded read path).map fun path ↦
      (report request path (read path)).stdout) = "" :=
    join_eq_empty fun path hpath ↦
      stdout_report_of_not_loaded (by simpa using (List.mem_filter.mp hpath).2)
  have hlisted : String.join ((request.paths.filter (isLoaded read)).map fun path ↦
      (report request path (read path)).stdout) =
        String.join (request.paths.map fun path ↦ (report request path (read path)).stdout) :=
    join_filter fun path _ hloaded ↦ stdout_report_of_not_loaded hloaded
  have hrefused : String.join ((request.paths.filter (isRefused read)).map fun path ↦
      (report request path (read path)).stderr) =
        String.join ((request.paths.filter (isLoaded read)).map fun path ↦
          (report request path (read path)).stderr) := by
    -- Only what was loaded can be refused, so the refused files are to be found among the loaded
    -- ones.
    have hboth : ∀ path ∈ request.paths,
        isRefused read path = (isRefused read path && isLoaded read path) :=
      fun path _ ↦ (Bool.and_eq_left_iff_imp.mpr isLoaded_of_isRefused).symm
    rw [List.filter_congr hboth, ← List.filter_filter]
    exact join_filter fun path hpath hlexed ↦
      stderr_report_of_not_refused (List.mem_filter.mp hpath).2 hlexed
  refine ⟨?_, ?_, ?_⟩
  · rw [runFiles_eq, Outcome.append, stdout_concat, stdout_concat, List.map_map, List.map_map]
    exact (congrArg₂ _ hunread hlisted).trans String.empty_append
  · rw [runFiles_eq, Outcome.append, stderr_concat, stderr_concat, List.map_map, List.map_map,
      hrefused]
    rfl
  · simp only [exitCode_eq_one_iff, ← failed_runFiles_iff]
    rfl

/-- A run over several paths prints what runs over each of them alone print, one after another, with
the files that cannot be read reported in front of those that are no lists of tokens. It fails
exactly if one of them does. -/
theorem separate_run (read : String → Except FileError String) (input : Except FileError String)
    (hpaths : (Request.ofArgs args).paths ≠ [])
    (hnames : ∀ path ∈ (Request.ofArgs args).paths, path ∉ optionNames) :
    Separate read (Request.ofArgs args).paths
      (fun path ↦ run (.ofArgs (alone args path)) read input)
        (run (.ofArgs args) read input) ∧
      ∀ path ∈ (Request.ofArgs args).paths,
        run (.ofArgs (alone args path)) read input = report (.ofArgs args) path (read path) := by
  have heach : ∀ path ∈ (Request.ofArgs args).paths,
      run (.ofArgs (alone args path)) read input = report (.ofArgs args) path (read path) := by
    intro path hpath
    rw [ofArgs_alone hnames (hnames path hpath), run_single]
  have hwhole : run (.ofArgs args) read input = runFiles (.ofArgs args) read := by
    rw [run, if_neg (by simpa using hpaths)]
  refine ⟨?_, heach⟩
  rw [hwhole]
  exact (separate_runFiles _ read).congr fun path hpath ↦ (heach path hpath).symm

/-- Two files, of which one is no list of tokens. -/
def shelf : String → Except FileError String
  | "good.kdl" => .ok "mass"
  | "bad.kdl" => .ok "5 #x"
  | _ => .error .notFound

/-- A bad file in front of a missing one, and a good file named twice, with an option between. -/
def shelfArgs : List String := ["bad.kdl", "gone.kdl", "good.kdl", "-H", "good.kdl"]

theorem separate_run_shelf :
    (Request.ofArgs shelfArgs).paths ≠ [] ∧
      (∀ path ∈ (Request.ofArgs shelfArgs).paths, path ∉ optionNames) ∧
        (run (.ofArgs shelfArgs) shelf (.ok "")).stdout =
          "== good.kdl (1 tokens)\nIdentifier \"mass\"\n" ++
            "== good.kdl (1 tokens)\nIdentifier \"mass\"\n" ∧
        (run (.ofArgs shelfArgs) shelf (.ok "")).stderr =
          "gone.kdl: No such file or directory (os error 2)\n" ++
            "bad.kdl:1:2: error: malformed resource id at 1:2\n" ∧
        (run (.ofArgs shelfArgs) shelf (.ok "")).exitCode = 1 := by
  have hlist : (Request.ofArgs shelfArgs).paths = ["bad.kdl", "gone.kdl", "good.kdl", "good.kdl"] :=
    rfl
  have hpaths : (Request.ofArgs shelfArgs).paths ≠ [] := by decide
  have hnames : ∀ path ∈ (Request.ofArgs shelfArgs).paths, path ∉ optionNames := by decide
  obtain ⟨hseparate, heach⟩ := separate_run shelf (.ok "") hpaths hnames
  have hbad : tokenize "5 #x" = .error (.malformedResourceId ⟨2, 1, 2⟩) := by decide +kernel
  have hgood : tokenize "mass" = .ok [⟨.plain .identifier "mass", .start, none⟩] := by
    decide +kernel
  refine ⟨hpaths, hnames, hseparate.stdout.trans ?_, hseparate.stderr.trans ?_,
    hseparate.exitCode.trans ?_⟩
  · rw [List.map_congr_left fun path hpath ↦ congrArg Outcome.stdout (heach path hpath), hlist]
    simp only [List.map_cons, List.map_nil, shelf, report, hbad, hgood]
    rfl
  · have hunread : (["bad.kdl", "gone.kdl", "good.kdl", "good.kdl"].filter fun path ↦
        !isLoaded shelf path) = ["gone.kdl"] := rfl
    have hrefused : ["bad.kdl", "gone.kdl", "good.kdl", "good.kdl"].filter (isRefused shelf) =
        ["bad.kdl"] := by
      simp [isRefused, shelf, hbad, hgood, Except.toOption, Except.isOk, Except.toBool]
    rw [hlist, hunread, hrefused, List.map_singleton, List.map_singleton,
      heach "gone.kdl" (by decide), heach "bad.kdl" (by decide)]
    simp only [shelf, report, hbad]
    rfl
  · refine if_pos ⟨"gone.kdl", by decide, ?_⟩
    rw [heach "gone.kdl" (by decide)]
    rfl

end ResourceLang.Proofs.SeparateFiles
