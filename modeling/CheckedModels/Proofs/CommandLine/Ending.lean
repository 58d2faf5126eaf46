import CheckedModels.Proofs.CommandLine.Stack

/-! How runs end: with success and nothing to complain of, with a complaint and nothing else, or with a
crash, and exactly when with a crash. -/
namespace CheckedModels.CommandLine

namespace Request

variable {r : Request} {files : Files}

/-- What no report is made of, up to the answer to a request. -/
inductive Crashes (r : Request) (files : Files) : Crash → Prop where
  | compile {c : Crash} (h : r.CompileCrash files c) : Crashes r files c
  | check {registry : Registry} {c : Crash} (hcompiles : r.Compiles files registry)
    (hcommand : r.command = .validate) (h : r.CheckCrash files registry c) : Crashes r files c

theorem settles_answer (r : Request) (files : Files) : Settles (r.answer .unbounded files)
    (fun report => ∃ registry, r.Compiles files registry ∧ r.Responds files registry report)
    (r.Crashes files) := by
  have hall : Settles (r.answer .unbounded files) _ _ :=
    (settles_compile r files).bind fun registry hcompiles => settles_respond r files hcompiles.finished
  refine hall.congr (fun _ => Iff.rfl) fun c => ⟨?_, ?_⟩
  · rintro (hc | ⟨registry, hcompiles, hcommand, hc⟩)
    · exact .compile hc
    · exact .check hcompiles hcommand hc
  · rintro (hc | ⟨hcompiles, hcommand, hc⟩)
    · exact .inl hc
    · exact .inr ⟨_, hcompiles, hcommand, hc⟩

/-- A run reports its answer. Remarks only come before what it complains of. -/
theorem exists_answer (stack : Stack) (r : Request) (files : Files) :
    ∃ report, (r.answer stack files = .ok report ∨ r.answer stack files = .error report) ∧
      (r.run stack files).output = report.output ∧ (r.run stack files).ending = report.ending ∧
      (r.verbose = false → r.run stack files = report) := by
  unfold answer run
  cases r.compile stack files with
  | error report => exact ⟨report, .inr rfl, rfl, rfl, fun _ => rfl⟩
  | ok c =>
    have hremark (report : Report) :
        (if r.verbose then report.remark c.notes else report).output = report.output ∧
        (if r.verbose then report.remark c.notes else report).ending = report.ending ∧
        (r.verbose = false → (if r.verbose then report.remark c.notes else report) = report) := by
      cases r.verbose <;> exact ⟨rfl, rfl, by simp⟩
    have hanswer : ((Except.ok c : Run Compilation).map Compilation.registry >>= fun registry =>
        r.respond stack files registry) = r.respond stack files c.registry := rfl
    rw [hanswer]
    dsimp only
    cases r.respond stack files c.registry with
    | ok report => exact ⟨report, .inl rfl, hremark report⟩
    | error report => exact ⟨report, .inr rfl, hremark report⟩

theorem answer_cases (quiet : r.verbose = false) (stack : Stack) (files : Files) :
    r.answer stack files = .ok (r.run stack files) ∨ r.answer stack files = .error (r.run stack files) := by
  obtain ⟨report, hanswer, -, -, hreport⟩ := r.exists_answer stack files
  rwa [hreport quiet]

theorem Responds.exists_success {registry : Registry} {report : Report}
    (h : r.Responds files registry report) : ∃ output, report = .success output := by
  cases h <;> exact ⟨_, rfl⟩

/-- On an unbounded stack a run without remarks crashes exactly where no report is made of what has been
read. -/
theorem ending_unbounded (quiet : r.verbose = false) (files : Files) :
    let report := r.run .unbounded files
    (report.ending = .exit 0 ∧ report.complaints = "" ∨
      report.ending = .exit 1 ∧ report.output = "" ∧
        (∃ message, report.complaints = "Error: " ++ message ++ "\n") ∨
      ∃ c, report.ending = .crash c) ∧
    ∀ c, report.ending = .crash c ↔ r.Crashes files c := by
  intro report
  have hsettles := r.settles_answer files
  rcases r.answer_cases quiet .unbounded files with hok | herror
  · obtain ⟨registry, -, hresponds⟩ := (hsettles.gives report).mp hok
    obtain ⟨output, houtput⟩ := hresponds.exists_success
    rw [houtput]
    refine ⟨.inl ⟨rfl, rfl⟩, fun c => ⟨nofun, fun hc => ?_⟩⟩
    cases hok.symm.trans ((hsettles.crashes c).mpr hc)
  · have hcrash (c : Crash) : r.Crashes files c ↔ report = .crash c := by
      rw [← hsettles.crashes c, herror, Except.error.injEq]
    simp only [hcrash]
    rcases hsettles.told report herror with ⟨message, hmessage⟩ | ⟨c, hc⟩
    · rw [hmessage]
      refine ⟨.inr (.inl ⟨rfl, rfl, message, rfl⟩), fun c => ⟨nofun, fun hc => ?_⟩⟩
      exact absurd hc Report.failure_ne_crash
    · rw [hc]
      refine ⟨.inr (.inr ⟨c, rfl⟩), fun c' => ⟨fun hending => ?_, fun heq => ?_⟩⟩
      · exact congrArg Report.crash (Ending.crash.inj hending)
      · exact congrArg Report.ending heq

theorem run_of_enough {stack : Stack} (h : ∀ t, r.Performs files t → stack t = false)
    (quiet : r.verbose = false) : r.run stack files = r.run .unbounded files := by
  have hsame : r.answer stack files = r.answer .unbounded files := (r.bears_answer files).goes stack h
  rcases r.answer_cases quiet stack files with hs | hs <;>
    rcases r.answer_cases quiet .unbounded files with hu | hu <;> rw [hsame, hu] at hs
  · exact (Except.ok.inj hs).symm
  · cases hs
  · cases hs
  · exact (Except.error.inj hs).symm

theorem ending_noStack {stack : Stack} {t : Task} (ht : r.Performs files t) (hends : stack t = true) :
    (r.run stack files).ending = .crash .noStack := by
  obtain ⟨report, hreport, hcrash⟩ := (r.bears_answer files).ends stack t ht hends
  obtain ⟨report', hanswer, -, hending, -⟩ := r.exists_answer stack files
  rw [hending, ← hcrash]
  rcases hanswer with h | h <;> rw [hreport] at h
  · cases h
  · rw [Except.error.inj h]

/-- What no report is made of, and what the stack is not enough for. -/
inductive CrashesOn (stack : Stack) (r : Request) (files : Files) : Crash → Prop where
  | noStack {t : Task} (h : r.Performs files t) (hends : stack t = true) : CrashesOn stack r files .noStack
  | read {c : Crash} (h : r.Crashes files c) (enough : ∀ t, r.Performs files t → stack t = false) :
    CrashesOn stack r files c

end Request

/-- A run without remarks succeeds and complains of nothing, or fails and tells why and nothing else, or
it crashes. It crashes exactly where no report is made of what has been read and where the stack is not
enough for one of its tasks. -/
theorem run_ending (stack : Stack) {arguments : List String} {r : Request} (files : Files)
    (h : Request.ofArguments arguments = .ok (some r)) (quiet : r.verbose = false) :
    let report := runOn stack arguments files
    (report.ending = .exit 0 ∧ report.complaints = "" ∨
      report.ending = .exit 1 ∧ report.output = "" ∧
        (∃ message, report.complaints = "Error: " ++ message ++ "\n") ∨
      ∃ c, report.ending = .crash c) ∧
    ∀ c, report.ending = .crash c ↔ r.CrashesOn stack files c := by
  intro report
  have hreport : report = r.run stack files := by simp only [report, runOn, h]
  rw [hreport]
  by_cases henough : ∀ t, r.Performs files t → stack t = false
  · obtain ⟨hends, hcrashes⟩ := r.ending_unbounded quiet files
    rw [r.run_of_enough henough quiet]
    refine ⟨hends, fun c => (hcrashes c).trans ⟨fun hc => .read hc henough, ?_⟩⟩
    rintro (⟨ht, hends⟩ | ⟨hc, -⟩)
    · cases (henough _ ht).symm.trans hends
    · exact hc
  · obtain ⟨t, ht, hends⟩ : ∃ t, r.Performs files t ∧ stack t = true := by
      simpa using henough
    rw [r.ending_noStack ht hends]
    refine ⟨.inr (.inr ⟨_, rfl⟩), fun c => ⟨fun hc => ?_, ?_⟩⟩
    · obtain rfl := Ending.crash.inj hc
      exact .noStack ht hends
    · rintro (_ | ⟨-, hall⟩)
      · rfl
      · exact absurd hall henough

theorem path_letter {s : String} (h : s = "s" ∨ s = "d") : Files.path s = s := by
  have hsplit : s.splitOn "/" = [s] := by
    rcases h with rfl | rfl <;>
      rw [String.splitOn, if_neg (by decide), String.splitOnAux, if_neg (by decide +kernel),
        if_neg (by decide +kernel), String.splitOnAux, if_pos (by decide +kernel)] <;>
      decide +kernel
  rw [Files.path, hsplit]
  rcases h with rfl | rfl <;> decide +kernel

/-- The request to list what is compiled from one file. -/
theorem ofArguments_compile : Request.ofArguments ["compile", "s"] =
    .ok (some ⟨false, .compile, none, false, [some "s"]⟩) := by decide +kernel

/-- That the file of the schema is missing is told. -/
theorem run_ending_missing : let report := run ["compile", "s"] fun _ => .error .missing
    report.ending = .exit 0 ∧ report.complaints = "" ∨
      report.ending = .exit 1 ∧ report.output = "" ∧
        ∃ message, report.complaints = "Error: " ++ message ++ "\n" := by
  intro report
  have hread :
      Files.readText (fun _ => .error .missing) (Files.path "s") = .error (.file .missing) := by
    rw [path_letter (.inl rfl), Files.readText, if_neg (by simp)]
  obtain ⟨hends, hcrashes⟩ := run_ending .unbounded (fun _ => .error .missing) ofArguments_compile rfl
  rcases hends with hsuccess | hfailure | ⟨c, hc⟩
  · exact .inl hsuccess
  · exact .inr hfailure
  · cases (hcrashes c).mp hc with
    | noStack _ hends => cases hends
    | read h =>
      cases h with
      | check _ hcommand => cases hcommand
      | compile h =>
        cases h with
        | config h => rcases h with ⟨h, -⟩ | ⟨h, -⟩ <;> cases h
        | noSchema _ h => exact absurd rfl (h "s")
        | notText _ hpath h =>
          obtain rfl : "s" = _ := Option.some.inj (Option.some.inj hpath)
          rw [hread] at h
          cases h

/-- A schema that is no text in UTF-8 leaves a run without a report. -/
theorem run_notUnicode : let report := run ["compile", "s"] fun _ => .ok ⟨#[0xff]⟩
    report.ending = .crash (.text .notUnicode) ∧ report.output = "" ∧ report.complaints = "" := by
  intro report
  let r : Request := ⟨false, .compile, none, false, [some "s"]⟩
  have hutf : String.fromUTF8? ⟨#[0xff]⟩ = none := by decide +kernel
  have hread :
      Files.readText (fun _ => .ok ⟨#[0xff]⟩) (Files.path "s") = .error (.text .notUnicode) := by
    rw [path_letter (.inl rfl), Files.readText, if_neg (by simp)]
    simp only [hutf]
  have hcrash : r.answer .unbounded (fun _ => .ok ⟨#[0xff]⟩) = .error (.crash (.text .notUnicode)) :=
    ((r.settles_answer _).crashes _).mpr (.compile (.notText (.none rfl) rfl hread))
  have hreport : report = r.run .unbounded fun _ => .ok ⟨#[0xff]⟩ := by
    simp only [report, run, runOn, ofArguments_compile, r]
  rcases r.answer_cases rfl .unbounded fun _ => .ok ⟨#[0xff]⟩ with h | h <;> rw [hcrash, ← hreport] at h
  · cases h
  · rw [← Except.error.inj h]
    exact ⟨rfl, rfl, rfl⟩

end CheckedModels.CommandLine
