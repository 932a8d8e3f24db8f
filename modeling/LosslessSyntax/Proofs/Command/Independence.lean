import LosslessSyntax.Command.Run
import LosslessSyntax.Proofs.Diagnostic.FirstError
import LosslessSyntax.Proofs.Tree.Spans

/-!
# Inputs are treated one by one

What a run leaves is put together from what it leaves for each input. For an input this depends on
its name and its text only, besides the action and the verbosity (`Answers`), and there is always an
answer: every text has a tree, and every tree of a text a dump (`exists_process`). Files that cannot
be read have a line each, in front of all else, and take part in nothing but the exit code
(`run_independent`).
-/

namespace LosslessSyntax

theorem Event.log_append (render : Event → String) (verbosity : Nat) (events others : List Event) :
    log render verbosity (events ++ others) =
      log render verbosity events ++ log render verbosity others := by
  rw [log, List.filter_append, List.map_append, log, log]

namespace Command

/-! ### What an input is answered with -/

/-- The line about a diagnostic: the name of its input, its line and its column, both counted from
one, and its message. -/
def reportLine (name text : String) (diagnostic : Diagnostic) : String :=
  let place := (Source.ofString text).linePosition diagnostic.span.start
  s!"{name}:{place.line + 1}:{place.column + 1}: {diagnostic.message}"

/-- What an action shows of an input, and the lines with which it reports on it. -/
inductive Answers (name text : String) : Action → String → List String → Prop
  | tokens : Answers name text .tokens (dumpTokens (tokenize text)) []
  | tree {tree : SyntaxTree} {dump : String} (htree : parse (tokenize text) = .ok tree)
      (hdump : dumpTree tree = .ok dump) :
      Answers name text .tree dump
        ((diagnostics (tokenize text) tree).map (reportLine name text))
  | accepted {tree : SyntaxTree} (htree : parse (tokenize text) = .ok tree)
      (hnone : diagnostics (tokenize text) tree = []) :
      Answers name text .check "" [s!"{name}: ok ({tree.statements.length} statement(s))"]
  | rejected {tree : SyntaxTree} (htree : parse (tokenize text) = .ok tree)
      (hsome : diagnostics (tokenize text) tree ≠ []) :
      Answers name text .check ""
        ((diagnostics (tokenize text) tree).map (reportLine name text))

/-- A check shows nothing. -/
theorem Answers.shown_of_check {name text shown : String} {reported : List String}
    (h : Answers name text .check shown reported) : shown = "" := by
  cases h <;> rfl

/-- Whether an input makes a run fail: it is checked, and strict parsing does not accept it. -/
def Fails (action : Action) (text : String) : Prop :=
  action = .check ∧ ∃ error, parseStrict text = .ok (.error error)

/-- What is left by one input: what is shown, what is logged, and the lines that report on it. -/
structure Reply where
  shown : String
  log : List String
  reported : List String

theorem diagnosticLine_eq (name text : String) :
    diagnosticLine name (.ofString text) = reportLine name text := by
  funext diagnostic
  simp [diagnosticLine, reportLine, toString, String.append_assoc]

/-- Strict parsing refuses a text if there are diagnostics. -/
theorem exists_parseStrict_eq_error_iff {text : String} {tree : SyntaxTree}
    (h : parse (tokenize text) = .ok tree) :
    (∃ error, parseStrict text = .ok (.error error)) ↔ diagnostics (tokenize text) tree ≠ [] := by
  rw [Ne, diagnostics_eq_nil_iff]
  cases hlexical : lexicalErrors (tokenize text) with
  | cons flaw flaws =>
    rw [parseStrict_of_lexicalErrors_eq_cons hlexical]
    exact iff_of_true ⟨_, rfl⟩ fun hnil => List.cons_ne_nil _ _ hnil.1
  | nil =>
    rw [parseStrict_of_lexicalErrors_eq_nil hlexical h]
    cases tree.diagnostics with
    | cons error errors => exact iff_of_true ⟨_, rfl⟩ fun hnil => List.cons_ne_nil _ _ hnil.2
    | nil => exact iff_of_false nofun fun hsome => hsome ⟨rfl, rfl⟩

/-- What is told about an input before it is parsed. -/
def openingEvents (name text : String) : List Event :=
  [.sourceRead name (Source.ofString text).length (Source.ofString text).lines.size,
    .lexed (tokenize text).length (Source.ofString text).length]

section

variable {render : Event → String} {verbosity : Nat} {name text : String} {tree : SyntaxTree}

theorem process_tokens :
    process render .tokens verbosity name text =
      .ok ⟨dumpTokens (tokenize text), Event.log render verbosity (openingEvents name text), 0⟩ :=
  rfl

theorem process_tree {dump : String} (htree : parse (tokenize text) = .ok tree)
    (hdump : dumpTree tree = .ok dump) :
    process render .tree verbosity name text =
      .ok ⟨dump, Event.log render verbosity (openingEvents name text ++ parsingEvents tree) ++
        (diagnostics (tokenize text) tree).map (reportLine name text), 0⟩ := by
  simp only [process, htree, hdump, bind, Except.bind, Event.log_append, diagnosticLine_eq]
  rfl

theorem process_check_of_eq_nil (htree : parse (tokenize text) = .ok tree)
    (hnone : diagnostics (tokenize text) tree = []) :
    process render .check verbosity name text =
      .ok ⟨"", Event.log render verbosity (openingEvents name text ++ parsingEvents tree) ++
        [okLine name tree], 0⟩ := by
  simp only [process, htree, hnone, bind, Except.bind, Event.log_append]
  rfl

theorem process_check_of_ne_nil (htree : parse (tokenize text) = .ok tree)
    (hsome : diagnostics (tokenize text) tree ≠ []) :
    process render .check verbosity name text =
      .ok ⟨"", Event.log render verbosity (openingEvents name text ++ parsingEvents tree) ++
        (diagnostics (tokenize text) tree).map (reportLine name text), 1⟩ := by
  obtain ⟨error, errors, hfound⟩ := List.exists_cons_of_ne_nil hsome
  simp only [process, htree, hfound, bind, Except.bind, Event.log_append, diagnosticLine_eq]
  rfl

end

/-- Every input is answered, and its exit code says whether it makes the run fail. -/
theorem exists_process (render : Event → String) (action : Action) (verbosity : Nat)
    (name text : String) :
    ∃ (reply : Reply) (code : Nat),
      process render action verbosity name text =
          .ok ⟨reply.shown, reply.log ++ reply.reported, code⟩ ∧
        Answers name text action reply.shown reply.reported ∧
        (∃ events, reply.log = Event.log render verbosity events) ∧
        code ≤ 1 ∧ (code = 1 ↔ Fails action text) := by
  obtain ⟨tree, htree⟩ := exists_parse_tokenize text
  obtain ⟨dump, hdump⟩ := exists_dumpTree htree
  have hfails := exists_parseStrict_eq_error_iff htree
  cases action with
  | tokens =>
    refine ⟨⟨_, _, []⟩, 0, process_tokens.trans ?_, .tokens, ⟨openingEvents name text, rfl⟩,
      Nat.zero_le 1, iff_of_false nofun nofun⟩
    simp only [List.append_nil]
    rfl
  | tree =>
    exact ⟨⟨_, _, _⟩, 0, process_tree htree hdump, .tree htree hdump, ⟨_, rfl⟩, Nat.zero_le 1,
      iff_of_false nofun nofun⟩
  | check =>
    by_cases hnone : diagnostics (tokenize text) tree = []
    · exact ⟨⟨_, _, _⟩, 0, process_check_of_eq_nil htree hnone, .accepted htree hnone, ⟨_, rfl⟩,
        Nat.zero_le 1, iff_of_false nofun fun h => hfails.mp h.2 hnone⟩
    · exact ⟨⟨_, _, _⟩, 1, process_check_of_ne_nil htree hnone, .rejected htree hnone, ⟨_, rfl⟩,
        Nat.le_refl 1, iff_of_true rfl ⟨rfl, hfails.mpr hnone⟩⟩

/-! ### What a run is given -/

section

variable (contents : String → Except FileFault ByteArray)

/-- The text of a file, if it can be had and is well encoded. -/
def fileText? (name : String) : Option String :=
  match contents name with
  | .ok bytes => String.fromUTF8? bytes
  | .error _ => none

/-- The line about a file whose text cannot be had. -/
def complaint? (name : String) : Option String :=
  match contents name with
  | .error fault => some s!"{name}: {fault.message}"
  | .ok bytes =>
    if (String.fromUTF8? bytes).isNone then some s!"{name}: stream did not contain valid UTF-8"
    else none

/-- The names and the texts of the inputs: the program from the command line and then the files that
can be read, in order. -/
def inputsOf (program : Option String) (files : List String) : List (String × String) :=
  program.toList.map (("<eval>", ·)) ++
    files.filterMap fun name => (fileText? contents name).map ((name, ·))

end

/-- What can be read is what is taken for an input. -/
theorem readableInputs_eq (contents : String → Except FileFault ByteArray)
    (program : Option String) (files : List String) :
    readableInputs program (files.map fun name => (name, readText contents name)) =
      inputsOf contents program files := by
  rw [readableInputs, inputsOf, List.filterMap_map]
  refine congrArg _ (List.filterMap_congr fun name _ => ?_)
  simp only [Function.comp, readText, fileText?]
  cases contents name with
  | error fault => rfl
  | ok bytes =>
    simp only
    cases String.fromUTF8? bytes <;> rfl

/-- What cannot be read has a line. -/
theorem unreadableLines_eq (contents : String → Except FileFault ByteArray) (files : List String) :
    unreadableLines (files.map fun name => (name, readText contents name)) =
      files.filterMap (complaint? contents) := by
  rw [unreadableLines, List.filterMap_map]
  refine List.filterMap_congr fun name _ => ?_
  simp only [Function.comp, readText, complaint?]
  cases contents name with
  | error fault => rfl
  | ok bytes =>
    simp only
    cases String.fromUTF8? bytes <;> rfl

/-- A file has a line or a text. -/
theorem complaint?_ne_none_iff (contents : String → Except FileFault ByteArray) (name : String) :
    complaint? contents name ≠ none ↔ fileText? contents name = none := by
  simp only [complaint?, fileText?]
  cases contents name with
  | error fault => exact iff_of_true nofun rfl
  | ok bytes => cases String.fromUTF8? bytes <;> simp

theorem complaints_ne_nil_iff (contents : String → Except FileFault ByteArray)
    (files : List String) :
    files.filterMap (complaint? contents) ≠ [] ↔
      ∃ name ∈ files, fileText? contents name = none := by
  simp only [Ne, List.filterMap_eq_nil_iff, not_forall, exists_prop, ← complaint?_ne_none_iff]

end Command

/-! ### Outcomes in a row -/

namespace Outcome

variable {outcomes : List Outcome}

theorem stdout_concat :
    (concat outcomes).stdout = String.join (outcomes.map Outcome.stdout) := by
  induction outcomes with
  | nil => rfl
  | cons outcome outcomes ih =>
    rw [List.map_cons, String.join_cons, ← ih]
    rfl

theorem stderr_concat : (concat outcomes).stderr = outcomes.flatMap Outcome.stderr := by
  induction outcomes with
  | nil => rfl
  | cons outcome outcomes ih =>
    rw [List.flatMap_cons, ← ih]
    rfl

/-- No exit code is greater in a row than by itself. -/
theorem exitCode_concat_le (h : ∀ outcome ∈ outcomes, outcome.exitCode ≤ 1) :
    (concat outcomes).exitCode ≤ 1 := by
  induction outcomes with
  | nil => exact Nat.zero_le 1
  | cons outcome outcomes ih =>
    obtain ⟨houtcome, houtcomes⟩ := List.forall_mem_cons.mp h
    exact Nat.max_le.mpr ⟨houtcome, ih houtcomes⟩

/-- One outcome after another is a failure if one of the two is. -/
theorem exitCode_append_eq_one_iff {a b : Outcome} (ha : a.exitCode ≤ 1) (hb : b.exitCode ≤ 1) :
    (a.append b).exitCode = 1 ↔ a.exitCode = 1 ∨ b.exitCode = 1 := by
  change max a.exitCode b.exitCode = 1 ↔ _
  omega

/-- Outcomes in a row are a failure if one of them is. -/
theorem exitCode_concat_eq_one_iff
    (h : ∀ outcome ∈ outcomes, outcome.exitCode ≤ 1) :
    (concat outcomes).exitCode = 1 ↔ ∃ outcome ∈ outcomes, outcome.exitCode = 1 := by
  induction outcomes with
  | nil => exact iff_of_false nofun nofun
  | cons outcome outcomes ih =>
    obtain ⟨houtcome, houtcomes⟩ := List.forall_mem_cons.mp h
    rw [List.exists_mem_cons_iff, ← ih houtcomes]
    exact exitCode_append_eq_one_iff houtcome (exitCode_concat_le houtcomes)

end Outcome

/-! ### The run -/

namespace Command

theorem exitCode_unreadable_le (lines : List String) : (unreadable lines).exitCode ≤ 1 := by
  cases lines
  · exact Nat.zero_le 1
  · exact Nat.le_refl 1

theorem exitCode_unreadable_eq_one_iff {lines : List String} :
    (unreadable lines).exitCode = 1 ↔ lines ≠ [] := by
  cases lines <;> simp [unreadable]

/-- **Inputs are treated one by one.** Let it be given how events are written in the log. For an
action and a verbosity there is an answer to each name and text. Whatever program and files are
given, as long as there is one, a run ends and leaves the answers to the program and to the files
that can be read, in this order: it shows what they show, and reports each file that cannot be read
and then what they report, each behind its log. It fails exactly if a file cannot be read, or if the
action is a check and strict parsing refuses an input. -/
theorem run_independent (render : Event → String) (action : Action) (verbosity : Nat) :
    ∃ reply : String → String → Reply,
      (∀ name text,
        Answers name text action (reply name text).shown (reply name text).reported ∧
          ∃ events, (reply name text).log = Event.log render verbosity events) ∧
      ∀ (program : Option String) (files : List String)
        (contents : String → Except FileFault ByteArray), program ≠ none ∨ files ≠ [] →
        ∃ outcome, run render ⟨action, verbosity, program, files⟩ contents = .ok outcome ∧
          outcome.stdout = String.join ((inputsOf contents program files).map fun (name, text) =>
            (reply name text).shown) ∧
          outcome.stderr = files.filterMap (complaint? contents) ++
            (inputsOf contents program files).flatMap (fun (name, text) =>
              (reply name text).log ++ (reply name text).reported) ∧
          outcome.exitCode ≤ 1 ∧
          (outcome.exitCode = 1 ↔ (∃ name ∈ files, fileText? contents name = none) ∨
            ∃ input ∈ inputsOf contents program files, Fails action input.2) := by
  -- The answers are chosen before any program or file is given.
  choose reply code hprocess hanswers hlog hle hfails using exists_process render action verbosity
  refine ⟨reply, fun name text => ⟨hanswers name text, hlog name text⟩, ?_⟩
  intro program files contents hsome
  let outcomeOf (input : String × String) : Outcome :=
    ⟨(reply input.1 input.2).shown,
      (reply input.1 input.2).log ++ (reply input.1 input.2).reported, code input.1 input.2⟩
  have hrun : run render ⟨action, verbosity, program, files⟩ contents =
      .ok ((unreadable (files.filterMap (complaint? contents))).append
        (.concat ((inputsOf contents program files).map outcomeOf))) := by
    have hinput : ¬(files.isEmpty && program.isNone) = true := by
      rcases hsome with hprogram | hfiles
      · simp [hprogram]
      · simp [hfiles]
    have hprocesses : (fun input : String × String =>
        process render action verbosity input.1 input.2) = fun input => pure (outcomeOf input) :=
      funext fun input => hprocess input.1 input.2
    rw [run, if_neg hinput]
    simp only [readableInputs_eq, unreadableLines_eq]
    rw [hprocesses, List.mapM_pure]
    rfl
  have hcodes : ∀ outcome ∈ (inputsOf contents program files).map outcomeOf,
      outcome.exitCode ≤ 1 :=
    List.forall_mem_map.mpr fun input _ => hle input.1 input.2
  refine ⟨_, hrun, ?_, ?_, ?_, ?_⟩
  · rw [Outcome.append, Outcome.stdout_concat, List.map_map]
    exact String.empty_append
  · rw [Outcome.append, Outcome.stderr_concat, List.flatMap_map]
    rfl
  · exact Nat.max_le.mpr ⟨exitCode_unreadable_le _, Outcome.exitCode_concat_le hcodes⟩
  · rw [Outcome.exitCode_append_eq_one_iff (exitCode_unreadable_le _)
      (Outcome.exitCode_concat_le hcodes), exitCode_unreadable_eq_one_iff, complaints_ne_nil_iff,
      Outcome.exitCode_concat_eq_one_iff hcodes]
    refine or_congr_right ?_
    simp only [List.mem_map, exists_exists_and_eq_and]
    exact exists_congr fun input => and_congr_right fun _ => hfails input.1 input.2

/-- A log that tells of events no more than their level. -/
def levelOf (event : Event) : String :=
  match event.level with
  | .debug => "debug"
  | .trace => "trace"

/-- A file with a program, one with a byte that begins no character, and no others. -/
def mixedFiles (name : String) : Except FileFault ByteArray :=
  if name = "program" then .ok "x = 1;".toUTF8
  else if name = "bytes" then .ok ⟨#[0xff]⟩
  else .error .notFound

/-- A check of two programs without errors fails, since two other files cannot be read. -/
theorem run_independent_mixedFiles :
    (some "1;" ≠ none ∨ ["program", "bytes", "absent"] ≠ []) ∧
      ∃ outcome, run levelOf ⟨.check, 0, some "1;", ["program", "bytes", "absent"]⟩ mixedFiles =
          .ok outcome ∧
        outcome.stdout = "" ∧
        ["bytes: stream did not contain valid UTF-8",
          "absent: No such file or directory (os error 2)"] <+: outcome.stderr ∧
        outcome.exitCode = 1 := by
  have hsome : some "1;" ≠ none ∨ ["program", "bytes", "absent"] ≠ [] := .inl nofun
  have hcomplaints : ["program", "bytes", "absent"].filterMap (complaint? mixedFiles) =
      ["bytes: stream did not contain valid UTF-8",
        "absent: No such file or directory (os error 2)"] := by
    decide +kernel
  obtain ⟨reply, hreply, hall⟩ := run_independent levelOf .check 0
  obtain ⟨outcome, hrun, hstdout, hstderr, -, hcode⟩ := hall _ _ mixedFiles hsome
  refine ⟨hsome, outcome, hrun, ?_, ?_, hcode.mpr (.inl ⟨"absent", by simp, rfl⟩)⟩
  · have hinputs : inputsOf mixedFiles (some "1;") ["program", "bytes", "absent"] =
        [("<eval>", "1;"), ("program", "x = 1;")] := by
      decide +kernel
    have hshown (name text : String) := (hreply name text).1.shown_of_check
    rw [hstdout, hinputs]
    simp [hshown, String.join]
  · rw [hstderr, hcomplaints]
    exact List.prefix_append _ _

end Command

end LosslessSyntax
