import TestCatalog.Command.Run
import TestCatalog.Proofs.Catalog.Outcome
import TestCatalog.Proofs.Command.AskedFile

/-!
# Proofs/Command/Ending — a run is all or nothing

A run writes the whole listing or none of it.  `Ends` says what it writes, and where, in the three
ways in which it can end: with the help text, with a listing, or with a failure.  The failure is the
first there is (`FirstFailure`): one of the options, else of the search, else of a file.

* `roots_eq_error_iff` — which options are refused, and why.
* `FirstFailure.not_built` — where there is a first failure, no schedule gives a listing.
* `run_ends` — every run with options that can be read ends in one of the three ways.
* `run_all_or_nothing` — so its exit code tells whether the output is complete.
-/

namespace TestCatalog.Command

open Catalog Files Log Report

/-! ## Lines -/

@[simp] theorem linesOf_singleton (text : String) : linesOf [text] = text ++ "\n" := by
  simp [linesOf]

theorem linesOf_append (first second : List String) :
    linesOf (first ++ second) = linesOf first ++ linesOf second := by
  rw [linesOf, linesOf, linesOf, List.map_append, String.join_append]

/-! ## Options that are refused -/

variable {schedule : Schedule} {fs : FileSystem} {parser : Parser} {o : Options}

/-- Help is due when neither directories nor a file are given. -/
theorem Options.needsHelp_iff : o.needsHelp = true ↔ o.directories = [] ∧ o.file = none := by
  rw [Options.needsHelp, Bool.and_eq_true, List.isEmpty_iff, Option.isNone_iff_eq_none]

/-- **Why options are refused**: a file is given besides directories, or it cannot be looked at, or
it is a directory. -/
inductive Refused (fs : FileSystem) (o : Options) : Failure → Prop where
  | both {file : Path} (hdirectories : o.directories ≠ []) (hfile : o.file = some file) :
      Refused fs o .fileAndDirectories
  | status {file : Path} {fault : Fault} (hdirectories : o.directories = [])
      (hfile : o.file = some file) (hitem : fs.item true file = .error fault) :
      Refused fs o (.ofStatus file fault)
  | folder {file : Path} {entries : List (Raw × Item)} (hdirectories : o.directories = [])
      (hfile : o.file = some file) (hitem : fs.item true file = .ok (.folder entries)) :
      Refused fs o .directoryAsFile

/-- **Options give no roots exactly if they are refused**, and for that reason. -/
theorem roots_eq_error_iff {e : Failure} : o.roots fs = .error e ↔ Refused fs o e := by
  constructor
  · intro h
    unfold Options.roots at h
    split at h
    · cases h
    · next file hfile =>
      split_ifs at h with hdirectories
      · obtain rfl := Except.error.inj h
        exact .both (by simpa using hdirectories) hfile
      · have hdirectories : o.directories = [] := by simpa using hdirectories
        split at h
        · next fault hitem =>
          obtain rfl := Except.error.inj h
          exact .status hdirectories hfile hitem
        · next entries hitem =>
          obtain rfl := Except.error.inj h
          exact .folder hdirectories hfile hitem
        · cases h
  · rintro (⟨hdirectories, hfile⟩ | ⟨hdirectories, hfile, hitem⟩ | ⟨hdirectories, hfile, hitem⟩)
    · simp [Options.roots, hfile, hdirectories]
    · simp [Options.roots, hfile, hdirectories, hitem]
    · simp [Options.roots, hfile, hdirectories, hitem]

/-- **Options that are taken give roots**, unless they ask for nothing. -/
theorem roots_ne_nil (hneeds : ¬ (o.directories = [] ∧ o.file = none)) {roots : List Path}
    (h : o.roots fs = .ok roots) : roots ≠ [] := by
  cases hfile : o.file with
  | none =>
    rw [Options.roots, hfile] at h
    obtain rfl := Except.ok.inj h
    exact fun hdirectories => hneeds ⟨hdirectories, hfile⟩
  | some file =>
    obtain ⟨-, rfl, -⟩ := (Options.roots_eq_ok_iff hfile).mp h
    exact List.cons_ne_nil file []

/-! ## The first failure -/

/-- **The first failure that options meet**: they are refused; or they are taken, and a root cannot
be searched, while all roots before it can be; or all roots can be searched, and a file found under
them cannot be listed. -/
inductive FirstFailure (fs : FileSystem) (parser : Parser) (o : Options) : Failure → Prop where
  | refused {e : Failure} (h : Refused fs o e) : FirstFailure fs parser o e
  | unsearched {before after : List Path} {root : Path} {e : Failure}
      (hroots : o.roots fs = .ok (before ++ root :: after))
      (hbefore : ∀ earlier ∈ before, Searchable fs earlier)
      (hroot : (testFiles fs root).result = .error e) : FirstFailure fs parser o e
  | unlisted {roots : List Path} {candidate : Candidate} {e : Failure}
      (hroots : o.roots fs = .ok roots) (hsearched : ∀ root ∈ roots, Searchable fs root)
      (hfound : FoundUnder fs roots candidate) (hfile : FailsWith fs parser candidate e) :
      FirstFailure fs parser o e

/-- **Where there is a first failure there is no listing**, whatever the schedule. -/
theorem FirstFailure.not_built {e : Failure} (h : FirstFailure fs parser o e) {roots : List Path}
    (hroots : o.roots fs = .ok roots) {records : List Record} :
    (build schedule fs parser roots).result ≠ .ok records := by
  intro hbuild
  rcases h with hrefused | ⟨hroots', hbefore, hroot⟩ | ⟨hroots', -, hfound, hfile⟩
  · cases hroots.symm.trans (roots_eq_error_iff.mpr hrefused)
  · obtain rfl := Except.ok.inj (hroots.symm.trans hroots')
    cases hbuild.symm.trans (build_eq_error_of_root hbefore hroot)
  · obtain rfl := Except.ok.inj (hroots.symm.trans hroots')
    exact hfile.not_listable ((exists_build_iff.mp ⟨records, hbuild⟩).2 _ hfound)

/-- **A root that cannot be searched is the first failure**, if the options are taken and the roots
before it can be searched. -/
theorem FirstFailure.eq_of_unsearched {before after : List Path} {root : Path} {e e' : Failure}
    (hroots : o.roots fs = .ok (before ++ root :: after))
    (hbefore : ∀ earlier ∈ before, Searchable fs earlier)
    (hroot : (testFiles fs root).result = .error e) (h : FirstFailure fs parser o e') : e' = e := by
  rcases h with hrefused | ⟨hroots', hbefore', hroot'⟩ | ⟨hroots', hsearched, -, -⟩
  · cases hroots.symm.trans (roots_eq_error_iff.mpr hrefused)
  · have hbuild : (build .inOrder fs parser (before ++ root :: after)).result = .error e :=
      build_eq_error_of_root hbefore hroot
    rw [Except.ok.inj (hroots.symm.trans hroots'), build_eq_error_of_root hbefore' hroot'] at hbuild
    exact Except.error.inj hbuild
  · obtain rfl := Except.ok.inj (hroots.symm.trans hroots')
    obtain ⟨found, hfound⟩ := hsearched root (by simp)
    cases hfound.symm.trans hroot

/-- **A failure that all files have is the first**, if the options are taken and all roots can be
searched. -/
theorem FirstFailure.eq_of_unlisted {roots : List Path} {e e' : Failure}
    (hroots : o.roots fs = .ok roots) (hsearched : ∀ root ∈ roots, Searchable fs root)
    (hfiles : ∀ candidate e, FoundUnder fs roots candidate →
      FailsWith fs parser candidate e → e = e')
    (h : FirstFailure fs parser o e) : e = e' := by
  rcases h with hrefused | ⟨hroots', -, hroot⟩ | ⟨hroots', -, hfound, hfile⟩
  · cases hroots.symm.trans (roots_eq_error_iff.mpr hrefused)
  · obtain rfl := Except.ok.inj (hroots.symm.trans hroots')
    obtain ⟨found, hfound⟩ := hsearched _ (List.mem_append_right _ List.mem_cons_self)
    cases hfound.symm.trans hroot
  · obtain rfl := Except.ok.inj (hroots.symm.trans hroots')
    exact hfiles _ _ hfound hfile

/-! ## Listings -/

/-- A listing is that of the catalog under the roots. -/
theorem listing_eq_ok_iff {text : String} :
    (listing schedule fs parser o).result = .ok text
      ↔ ∃ roots records, o.roots fs = .ok roots
        ∧ (build schedule fs parser roots).result = .ok records
        ∧ text = render o.pretty records := by
  simp [listing, eq_comm (a := text)]

/-- Where there is no listing the first failure is the reason. -/
theorem firstFailure_of_listing {e : Failure}
    (h : (listing schedule fs parser o).result = .error e) : FirstFailure fs parser o e := by
  have hcases : o.roots fs = .error e
      ∨ ∃ roots, o.roots fs = .ok roots ∧ (build schedule fs parser roots).result = .error e := by
    simpa [listing] using h
  rcases hcases with hrefused | ⟨roots, hroots, hbuild⟩
  · exact .refused (roots_eq_error_iff.mp hrefused)
  · rcases build_eq_error hbuild with
      ⟨before, root, after, rfl, hbefore, hroot⟩ | ⟨hsearched, candidate, hfound, hfile⟩
    · exact .unsearched hroots hbefore hroot
    · exact .unlisted hroots hsearched hfound hfile

/-- Options that are refused end the work before anything is logged. -/
theorem listing_of_refused (schedule : Schedule) (parser : Parser) {e : Failure}
    (h : Refused fs o e) : listing schedule fs parser o = ⟨[], .error e⟩ := by
  rw [listing, roots_eq_error_iff.mpr h]
  rfl

/-! ## Runs -/

/-- **What a run writes, and where, in each of the ways in which it ends.**  Log lines go to the
error output only, and come before the message of a failure. -/
inductive Ends (schedule : Schedule) (fs : FileSystem) (parser : Parser) (o : Options) (r : Run) :
    Prop where
  | help (hdirectories : o.directories = []) (hfile : o.file = none)
      (houtput : r.output = helpText ++ "\n") (herror : r.errorOutput = "")
      (hexit : r.exitCode = 0)
  | listed {roots : List Path} {records : List Record} (hroots : o.roots fs = .ok roots)
      (hne : roots ≠ []) (hbuild : (build schedule fs parser roots).result = .ok records)
      (houtput : r.output = render o.pretty records ++ "\n")
      (herror : r.errorOutput = linesOf r.log) (hexit : r.exitCode = 0)
  | failed {e : Failure} (hfirst : FirstFailure fs parser o e) (houtput : r.output = "")
      (herror : r.errorOutput = linesOf r.log ++ e.message ++ "\n") (hexit : r.exitCode = 1)

variable {places : Places} {asked : Option String} {arguments : List Raw} {r : Run}

theorem runOptions_of_help (h : o.directories = [] ∧ o.file = none) :
    runOptions schedule fs parser places asked o = ⟨[], .stopped .help⟩ :=
  if_pos (Options.needsHelp_iff.mpr h)

theorem runOptions_of_ok (h : ¬ (o.directories = [] ∧ o.file = none)) {text : String}
    (hresult : (listing schedule fs parser o).result = .ok text) :
    runOptions schedule fs parser places asked o
      = ⟨(filterFor o.verbosity asked).lines (o.verbosity.shownPlaces places)
          (listing schedule fs parser o).events, .listing text⟩ := by
  rw [runOptions, if_neg fun hneeds => h (Options.needsHelp_iff.mp hneeds)]
  dsimp only
  rw [hresult]

theorem runOptions_of_error (h : ¬ (o.directories = [] ∧ o.file = none)) {e : Failure}
    (hresult : (listing schedule fs parser o).result = .error e) :
    runOptions schedule fs parser places asked o
      = ⟨(filterFor o.verbosity asked).lines (o.verbosity.shownPlaces places)
          (listing schedule fs parser o).events, .failed e⟩ := by
  rw [runOptions, if_neg fun hneeds => h (Options.needsHelp_iff.mp hneeds)]
  dsimp only
  rw [hresult]

theorem errorOutput_failed (log : List String) (e : Failure) :
    (⟨log, .failed e⟩ : Run).errorOutput = linesOf log ++ e.message ++ "\n" := by
  rw [String.append_assoc, ← linesOf_singleton, ← linesOf_append]
  rfl

theorem run_of_read (hread : readOptions arguments = .ok o) :
    run schedule fs parser places asked arguments
      = runOptions schedule fs parser places asked o := by
  rw [run, hread]

/-- **Every run with options that can be read ends in one of these ways.** -/
theorem run_ends (hread : readOptions arguments = .ok o)
    (hrun : run schedule fs parser places asked arguments = r) : Ends schedule fs parser o r := by
  rw [run_of_read hread] at hrun
  by_cases hneeds : o.directories = [] ∧ o.file = none
  · rw [runOptions_of_help hneeds] at hrun
    subst hrun
    exact .help hneeds.1 hneeds.2 (linesOf_singleton helpText) rfl rfl
  · cases hresult : (listing schedule fs parser o).result with
    | ok text =>
      rw [runOptions_of_ok hneeds hresult] at hrun
      subst hrun
      obtain ⟨roots, records, hroots, hbuild, rfl⟩ := listing_eq_ok_iff.mp hresult
      exact .listed hroots (roots_ne_nil hneeds hroots) hbuild (linesOf_singleton _) rfl rfl
    | error e =>
      rw [runOptions_of_error hneeds hresult] at hrun
      subst hrun
      exact .failed (firstFailure_of_listing hresult) rfl (errorOutput_failed _ e) rfl

theorem render_nil (pretty : Bool) : render pretty [] = "No tests found" := rfl

namespace Ends

/-- **A catalog for the roots of the options is written out whole.** -/
theorem of_built (h : Ends schedule fs parser o r) (hneeds : ¬ (o.directories = [] ∧ o.file = none))
    {roots : List Path} {records : List Record} (hroots : o.roots fs = .ok roots)
    (hbuild : (build schedule fs parser roots).result = .ok records) :
    r.exitCode = 0 ∧ r.output = render o.pretty records ++ "\n" := by
  rcases h with ⟨hdirectories, hfile, -⟩ | ⟨hroots', -, hbuild', houtput, -, hexit⟩ | ⟨hfirst, -⟩
  · exact absurd ⟨hdirectories, hfile⟩ hneeds
  · obtain rfl := Except.ok.inj (hroots.symm.trans hroots')
    obtain rfl := Except.ok.inj (hbuild.symm.trans hbuild')
    exact ⟨hexit, houtput⟩
  · exact absurd hbuild (hfirst.not_built hroots)

/-- **A run succeeds exactly if there is a catalog** for the roots of its options. -/
theorem exitCode_eq_zero_iff (h : Ends schedule fs parser o r)
    (hneeds : ¬ (o.directories = [] ∧ o.file = none)) :
    r.exitCode = 0 ↔ ∃ roots records, o.roots fs = .ok roots
      ∧ (build schedule fs parser roots).result = .ok records := by
  constructor
  · intro hexit
    rcases h with ⟨hdirectories, hfile, -⟩ | ⟨hroots, -, hbuild, -⟩ | ⟨-, -, -, hexit'⟩
    · exact absurd ⟨hdirectories, hfile⟩ hneeds
    · exact ⟨_, _, hroots, hbuild⟩
    · cases hexit.symm.trans hexit'
  · rintro ⟨roots, records, hroots, hbuild⟩
    exact (h.of_built hneeds hroots hbuild).1

/-- **A run that does not succeed writes nothing but log lines and its first failure**, to the error
output. -/
theorem of_exitCode_ne_zero (h : Ends schedule fs parser o r) (hexit : r.exitCode ≠ 0) :
    r.exitCode = 1 ∧ r.output = ""
      ∧ ∃ e, FirstFailure fs parser o e ∧ r.errorOutput = linesOf r.log ++ e.message ++ "\n" := by
  rcases h with
    ⟨-, -, -, -, hexit'⟩ | ⟨-, -, -, -, -, hexit'⟩ | ⟨hfirst, houtput, herror, hexit'⟩
  · exact absurd hexit' hexit
  · exact absurd hexit' hexit
  · exact ⟨hexit', houtput, _, hfirst, herror⟩

end Ends

/-- **A run is all or nothing.**  With neither directories nor a file it writes the help text, and
with both it is refused, whatever the files are.  Otherwise it succeeds exactly if its options are
taken and there is a catalog for their roots, of which there are some, and writes the listing of
that catalog and nothing else, a sentence if it has no records.  If it does not succeed the output
is empty, and the error output ends with the first failure. -/
theorem run_all_or_nothing (hread : readOptions arguments = .ok o)
    (hrun : run schedule fs parser places asked arguments = r) :
    (o.directories = [] ∧ o.file = none →
        r = ⟨[], .stopped .help⟩ ∧ r.output = helpText ++ "\n" ∧ r.errorOutput = ""
          ∧ r.exitCode = 0)
    ∧ (o.directories ≠ [] ∧ o.file ≠ none →
        r = ⟨[], .failed .fileAndDirectories⟩ ∧ r.output = ""
          ∧ r.errorOutput = "ERROR: cannot specify both a file and a directory\n"
          ∧ r.exitCode = 1)
    ∧ (¬ (o.directories = [] ∧ o.file = none) →
        (r.exitCode = 0
          ↔ ∃ roots records, o.roots fs = .ok roots
            ∧ (build schedule fs parser roots).result = .ok records)
        ∧ (∀ roots records, o.roots fs = .ok roots →
            (build schedule fs parser roots).result = .ok records →
            roots ≠ [] ∧ r.output = render o.pretty records ++ "\n"
              ∧ (records = [] → r.output = "No tests found\n"))
        ∧ (r.exitCode ≠ 0 →
            r.exitCode = 1 ∧ r.output = ""
              ∧ ∃ log e, FirstFailure fs parser o e
                ∧ r.errorOutput = log ++ e.message ++ "\n")) := by
  have hends := run_ends hread hrun
  rw [run_of_read hread] at hrun
  refine ⟨fun hnone => ?_, fun hboth => ?_,
    fun hneeds => ⟨hends.exitCode_eq_zero_iff hneeds, ?_, ?_⟩⟩
  · rw [runOptions_of_help hnone] at hrun
    subst hrun
    exact ⟨rfl, linesOf_singleton helpText, rfl, rfl⟩
  · obtain ⟨file, hfile⟩ := Option.ne_none_iff_exists'.mp hboth.2
    have hrefused : Refused fs o .fileAndDirectories := .both hboth.1 hfile
    have hlisting := listing_of_refused schedule parser hrefused
    rw [runOptions_of_error (fun hnone => hboth.1 hnone.1) (congrArg Logged.result hlisting),
      hlisting] at hrun
    subst hrun
    exact ⟨rfl, rfl, errorOutput_failed [] _, rfl⟩
  · intro roots records hroots hbuild
    have houtput := (hends.of_built hneeds hroots hbuild).2
    refine ⟨roots_ne_nil hneeds hroots, houtput, ?_⟩
    rintro rfl
    rw [houtput, render_nil]
    rfl
  · intro hexit
    obtain ⟨hone, houtput, e, hfirst, herror⟩ := hends.of_exitCode_ne_zero hexit
    exact ⟨hone, houtput, _, e, hfirst, herror⟩

/-! ## A run that lists, and runs that fail in each of the three places -/

/-- Looking under directories. -/
def under (directories : List Path) : Options := { Options.initial with directories := directories }

/-- The second root is not there, and that comes before the file that is no text. -/
theorem firstFailure_gone {e : Failure} :
    FirstFailure spoiled oneTest (under [⟨"a"⟩, ⟨"b"⟩]) e
      ↔ e = .unsearchable ⟨"b"⟩ ⟨"b"⟩ .notFound := by
  have hroots : (under [⟨"a"⟩, ⟨"b"⟩]).roots spoiled = .ok ([⟨"a"⟩] ++ ⟨"b"⟩ :: []) := rfl
  have hbefore : ∀ earlier ∈ [(⟨"a"⟩ : Path)], Searchable spoiled earlier :=
    List.forall_mem_singleton.mpr ⟨_, testFiles_spoiled⟩
  refine ⟨fun h => ?_, fun h => h ▸ .unsearched hroots hbefore testFiles_gone⟩
  exact h.eq_of_unsearched hroots hbefore testFiles_gone

/-- The file that is no text is the only failure under the first root. -/
theorem firstFailure_spoiled {e : Failure} :
    FirstFailure spoiled oneTest (under [⟨"a"⟩]) e
      ↔ e = .unreadable ⟨"a/x_test.go"⟩ .invalidText := by
  have hroots : (under [⟨"a"⟩]).roots spoiled = .ok [⟨"a"⟩] := rfl
  have hsearched : ∀ root ∈ [(⟨"a"⟩ : Path)], Searchable spoiled root :=
    List.forall_mem_singleton.mpr ⟨_, testFiles_spoiled⟩
  refine ⟨fun h => h.eq_of_unlisted hroots hsearched fun candidate e hfound hfile => ?_,
    fun h => ?_⟩
  · rcases foundUnder_spoiled.mp hfound with rfl | rfl
    · exact hfile.eq failsWith_spoiled
    · exact absurd listable_spoiled hfile.not_listable
  · exact h ▸ .unlisted hroots hsearched (foundUnder_spoiled.mpr (.inl rfl)) failsWith_spoiled

/-- The file that is asked for is not there. -/
theorem firstFailure_missing {e : Failure} :
    FirstFailure linkedFile oneTest (askFor ⟨"c_test.go"⟩) e
      ↔ e = .ofStatus ⟨"c_test.go"⟩ .notFound := by
  have hroots : (askFor ⟨"c_test.go"⟩).roots linkedFile
      = .error (.ofStatus ⟨"c_test.go"⟩ .notFound) := rfl
  refine ⟨fun h => ?_, fun h => h ▸ .refused (roots_eq_error_iff.mp hroots)⟩
  rcases h with hrefused | ⟨hroots', -, -⟩ | ⟨hroots', -, -, -⟩
  · exact (Except.error.inj (hroots.symm.trans (roots_eq_error_iff.mpr hrefused))).symm
  · cases hroots.symm.trans hroots'
  · cases hroots.symm.trans hroots'

theorem build_askedLink : (build .inOrder linkedFile oneTest [⟨"b_test.go"⟩]).result = .ok [] := by
  have hlink : linkedFile.item false ⟨"b_test.go"⟩ = .ok (.link ⟨"a_test.go"⟩) := rfl
  have hitem : linkedFile.item true ⟨"b_test.go"⟩ = .ok (.file .empty) := rfl
  exact build_of_none_found (testFiles_of_no_file hitem (fun _ => by simp)
    fun _ hfile => by cases hlink.symm.trans hfile)

/-- **A run fails with a message**: the message ends the error output, and that is all. -/
def Run.Fails (r : Run) (message : String) : Prop :=
  r.exitCode = 1 ∧ r.output = "" ∧ ∃ log, r.errorOutput = log ++ message ++ "\n"

/-- Records are listed, nothing is found, a root is not there, a file is no text, and the file that
is asked for is not there. -/
theorem sample_runs :
    ((run .backwards twoFiles oneTest (fun _ => none) none [".", "a_test.go"]).exitCode = 0
      ∧ (run .backwards twoFiles oneTest (fun _ => none) none [".", "a_test.go"]).output
        = render false [recordIn "a_test.go", recordIn "b_test.go", recordIn "a_test.go"] ++ "\n")
    ∧ ((run .inOrder linkedFile oneTest (fun _ => none) none ["-f", "b_test.go"]).exitCode = 0
      ∧ (run .inOrder linkedFile oneTest (fun _ => none) none ["-f", "b_test.go"]).output
        = "No tests found\n")
    ∧ (run .inOrder spoiled oneTest (fun _ => none) none ["a", "b"]).Fails
        ("ERROR: unknown error: failed to walk 'b': IO error for operation on b: "
          ++ "No such file or directory (os error 2)")
    ∧ (run .inOrder spoiled oneTest (fun _ => none) none ["a"]).Fails
        ("ERROR: unknown error: failed to read file 'a/x_test.go': "
          ++ "stream did not contain valid UTF-8")
    ∧ (run .inOrder linkedFile oneTest (fun _ => none) none ["-f", "c_test.go"]).Fails
        "ERROR: unknown error: file not found: c_test.go" := by
  have hfails {fs : FileSystem} {arguments : List Raw} {o : Options} {e : Failure}
      (hread : readOptions arguments = .ok o) (hneeds : ¬ (o.directories = [] ∧ o.file = none))
      (hfirst : ∀ e', FirstFailure fs oneTest o e' ↔ e' = e) {message : String}
      (hmessage : e.message = message) :
      (run .inOrder fs oneTest (fun _ => none) none arguments).Fails message := by
    obtain ⟨-, -, hrun⟩ := run_all_or_nothing hread
      (rfl : run .inOrder fs oneTest (fun _ => none) none arguments = _)
    obtain ⟨hiff, -, herror⟩ := hrun hneeds
    have hexit : (run .inOrder fs oneTest (fun _ => none) none arguments).exitCode ≠ 0 := by
      intro hzero
      obtain ⟨roots, records, hroots, hbuild⟩ := hiff.mp hzero
      exact ((hfirst e).mpr rfl).not_built hroots hbuild
    obtain ⟨hone, houtput, log, e', he', hlog⟩ := herror hexit
    obtain rfl := (hfirst e').mp he'
    exact ⟨hone, houtput, log, hmessage ▸ hlog⟩
  have hunder (root : Path) (roots : List Path) :
      ¬ ((under (root :: roots)).directories = [] ∧ (under (root :: roots)).file = none) :=
    fun hnone => List.cons_ne_nil root roots hnone.1
  have hasked (file : Path) : ¬ ((askFor file).directories = [] ∧ (askFor file).file = none) :=
    fun hnone => Option.some_ne_none file hnone.2
  have hread : readOptions [".", "a_test.go"] = .ok (under [⟨"."⟩, ⟨"a_test.go"⟩]) := rfl
  have hread' : readOptions ["-f", "b_test.go"] = .ok (askFor ⟨"b_test.go"⟩) := rfl
  have hroots : (under [⟨"."⟩, ⟨"a_test.go"⟩]).roots twoFiles = .ok [⟨"."⟩, ⟨"a_test.go"⟩] := rfl
  have hroots' : (askFor ⟨"b_test.go"⟩).roots linkedFile = .ok [⟨"b_test.go"⟩] := rfl
  obtain ⟨-, -, hrun⟩ := run_all_or_nothing hread
    (rfl : run .backwards twoFiles oneTest (fun _ => none) none [".", "a_test.go"] = _)
  obtain ⟨-, -, hrun'⟩ := run_all_or_nothing hread'
    (rfl : run .inOrder linkedFile oneTest (fun _ => none) none ["-f", "b_test.go"] = _)
  obtain ⟨hiff, hlisted, -⟩ := hrun (hunder _ _)
  obtain ⟨hiff', hlisted', -⟩ := hrun' (hasked _)
  refine ⟨⟨hiff.mpr ⟨_, _, hroots, build_backwards⟩, (hlisted _ _ hroots build_backwards).2.1⟩,
    ⟨hiff'.mpr ⟨_, _, hroots', build_askedLink⟩, (hlisted' _ _ hroots' build_askedLink).2.2 rfl⟩,
    ?_, ?_, ?_⟩
  · exact hfails rfl (hunder _ _) (fun _ => firstFailure_gone) (by decide +kernel)
  · exact hfails rfl (hunder _ _) (fun _ => firstFailure_spoiled) (by decide +kernel)
  · exact hfails rfl (hasked _) (fun _ => firstFailure_missing) (by decide +kernel)

end TestCatalog.Command
