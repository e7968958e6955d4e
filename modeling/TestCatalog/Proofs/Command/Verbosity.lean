import TestCatalog.Proofs.Command.Ending

/-!
# Proofs/Command/Verbosity — what is logged leaves no trace in the listing

Events are reported in every part of the work, and which of them are shown is up to the options and
to a filter asked for by name.  Neither has a say in the work itself, so runs that are to do the
same write the same output and end with the same exit code, in whatever order the files are read.

* `build_eq_ok_of_schedule` — a catalog is the same for every schedule.
* `SameListing.happened_eq` — the same work reports the same events, shown or not.
* `run_output_eq` — two runs that differ in what they log agree in output and exit code, and each
  writes what it logs to the error output, before the message of a failure.
-/

namespace TestCatalog.Command

open Catalog Files Log Report

variable {schedule schedule' : Schedule} {fs : FileSystem} {parser : Parser} {o o' : Options}

/-! ## Options that ask for the same -/

/-- **Options that ask for the same listing**: they may differ in what is to be logged. -/
structure SameListing (o o' : Options) : Prop where
  directories : o.directories = o'.directories
  file : o.file = o'.file
  pretty : o.pretty = o'.pretty

/-- What happens in a run, whether it is shown or not. -/
def happened (schedule : Schedule) (fs : FileSystem) (parser : Parser) (o : Options) :
    List Event :=
  if o.needsHelp then [] else (listing schedule fs parser o).events

namespace SameListing

theorem symm (h : SameListing o o') : SameListing o' o :=
  ⟨h.directories.symm, h.file.symm, h.pretty.symm⟩

theorem roots_eq (h : SameListing o o') (fs : FileSystem) : o.roots fs = o'.roots fs := by
  rw [Options.roots, Options.roots, h.directories, h.file]

theorem needsHelp_eq (h : SameListing o o') : o.needsHelp = o'.needsHelp := by
  rw [Options.needsHelp, Options.needsHelp, h.directories, h.file]

/-- **The same work is done**, with the same events and the same result. -/
theorem listing_eq (h : SameListing o o') (schedule : Schedule) (fs : FileSystem)
    (parser : Parser) : listing schedule fs parser o = listing schedule fs parser o' := by
  rw [listing, listing, h.roots_eq, h.pretty]

/-- The same events happen, shown or not. -/
theorem happened_eq (h : SameListing o o') (schedule : Schedule) (fs : FileSystem)
    (parser : Parser) : happened schedule fs parser o = happened schedule fs parser o' := by
  rw [happened, happened, h.needsHelp_eq, h.listing_eq]

/-- **The work ends alike**, with the same listing or the same failure, whatever is shown of it. -/
theorem ending_eq (h : SameListing o o') (schedule : Schedule) (fs : FileSystem) (parser : Parser)
    (places places' : Places) (asked asked' : Option String) :
    (runOptions schedule fs parser places asked o).ending
      = (runOptions schedule fs parser places' asked' o').ending := by
  rw [runOptions, runOptions, h.needsHelp_eq, h.listing_eq]
  split <;> rfl

end SameListing

/-! ## Runs that log differently -/

/-- The log lines of a run are those of the events that happen, as its filter selects them. -/
theorem log_runOptions (places : Places) (asked : Option String) :
    (runOptions schedule fs parser places asked o).log
      = (filterFor o.verbosity asked).lines (o.verbosity.shownPlaces places)
          (happened schedule fs parser o) := by
  rw [runOptions, happened]
  split <;> rfl

/-- **A catalog is the same for every schedule.** -/
theorem build_eq_ok_of_schedule {roots : List Path} {records : List Record}
    (h : (build schedule fs parser roots).result = .ok records) (schedule' : Schedule) :
    (build schedule' fs parser roots).result = .ok records :=
  build_eq_ok_iff.mpr (build_eq_ok_iff.mp h)

namespace Ends

variable {r r' : Run}

/-- **Where one run succeeds, so does the other, with the same output**: the catalog depends neither
on the schedule nor on what is logged. -/
theorem of_success (h : Ends schedule fs parser o r) (h' : Ends schedule' fs parser o' r')
    (hsame : SameListing o o') (hneeds : ¬ (o.directories = [] ∧ o.file = none))
    (hexit : r.exitCode = 0) : r'.exitCode = 0 ∧ r.output = r'.output := by
  have hneeds' : ¬ (o'.directories = [] ∧ o'.file = none) := by
    rwa [← hsame.directories, ← hsame.file]
  obtain ⟨roots, records, hroots, hbuild⟩ := (h.exitCode_eq_zero_iff hneeds).mp hexit
  have hroots' : o'.roots fs = .ok roots := (hsame.roots_eq fs).symm.trans hroots
  have hbuilt := h.of_built hneeds hroots hbuild
  have hbuilt' := h'.of_built hneeds' hroots' (build_eq_ok_of_schedule hbuild schedule')
  exact ⟨hbuilt'.1, by rw [hbuilt.2, hbuilt'.2, hsame.pretty]⟩

/-- …and where one fails, so does the other, and neither writes any output. -/
theorem output_eq (h : Ends schedule fs parser o r) (h' : Ends schedule' fs parser o' r')
    (hsame : SameListing o o') (hneeds : ¬ (o.directories = [] ∧ o.file = none)) :
    r.output = r'.output ∧ r.exitCode = r'.exitCode := by
  by_cases hexit : r.exitCode = 0
  · obtain ⟨hexit', houtput⟩ := h.of_success h' hsame hneeds hexit
    exact ⟨houtput, hexit.trans hexit'.symm⟩
  · have hneeds' : ¬ (o'.directories = [] ∧ o'.file = none) := by
      rwa [← hsame.directories, ← hsame.file]
    have hexit' : r'.exitCode ≠ 0 := fun hexit' =>
      hexit (h'.of_success h hsame.symm hneeds' hexit').1
    obtain ⟨hone, hempty, -⟩ := h.of_exitCode_ne_zero hexit
    obtain ⟨hone', hempty', -⟩ := h'.of_exitCode_ne_zero hexit'
    exact ⟨hempty.trans hempty'.symm, hone.trans hone'.symm⟩

end Ends

/-- **What is logged never shows in the output.**  Two runs over the same files whose options ask
for the same listing write the same output and end with the same exit code, whatever verbosity and
filter each has and in whatever order each reads the files.  Each writes the log lines that its
filter selects to the error output, and behind them, if it fails, the failure.  In the same order,
the same events happen and the runs end alike. -/
theorem run_output_eq {places places' : Places} {asked asked' : Option String}
    {arguments arguments' : List Raw} {r r' : Run} (hread : readOptions arguments = .ok o)
    (hread' : readOptions arguments' = .ok o')
    (hrun : run schedule fs parser places asked arguments = r)
    (hrun' : run schedule' fs parser places' asked' arguments' = r') (hsame : SameListing o o') :
    r.output = r'.output ∧ r.exitCode = r'.exitCode
    ∧ (r.log = (filterFor o.verbosity asked).lines (o.verbosity.shownPlaces places)
          (happened schedule fs parser o)
        ∧ Ends schedule fs parser o r)
    ∧ (r'.log = (filterFor o'.verbosity asked').lines (o'.verbosity.shownPlaces places')
          (happened schedule' fs parser o')
        ∧ Ends schedule' fs parser o' r')
    ∧ (schedule = schedule' →
        happened schedule fs parser o = happened schedule' fs parser o'
          ∧ r.ending = r'.ending) := by
  have hends := run_ends hread hrun
  have hends' := run_ends hread' hrun'
  rw [run_of_read hread] at hrun
  rw [run_of_read hread'] at hrun'
  have houtput : r.output = r'.output ∧ r.exitCode = r'.exitCode := by
    by_cases hneeds : o.directories = [] ∧ o.file = none
    · have hneeds' : o'.directories = [] ∧ o'.file = none := by
        rwa [← hsame.directories, ← hsame.file]
      rw [← hrun, ← hrun', runOptions_of_help hneeds, runOptions_of_help hneeds']
      exact ⟨rfl, rfl⟩
    · exact hends.output_eq hends' hsame hneeds
  subst hrun hrun'
  refine ⟨houtput.1, houtput.2, ⟨log_runOptions places asked, hends⟩,
    ⟨log_runOptions places' asked', hends'⟩, ?_⟩
  rintro rfl
  exact ⟨hsame.happened_eq schedule fs parser,
    hsame.ending_eq schedule fs parser places places' asked asked'⟩

/-! ## A quiet run, and one that shows everything -/

/-- One run is to be quiet and is given a filter that cannot be read; the other shows everything and
works backwards.  Both list the same record, and what the second shows is no part of it. -/
theorem quiet_eq_verbose :
    readOptions ["-q", "-f", "a_test.go"] = .ok { askFor ⟨"a_test.go"⟩ with quiet := true }
    ∧ readOptions ["-vvv", "-f", "a_test.go"] = .ok { askFor ⟨"a_test.go"⟩ with verbose := 3 }
    ∧ (run .inOrder twoFiles oneTest (fun _ => none) (some "=") ["-q", "-f", "a_test.go"]).output
      = (run .backwards twoFiles oneTest (fun e => some (e.origin, 1)) none
          ["-vvv", "-f", "a_test.go"]).output
    ∧ (run .inOrder twoFiles oneTest (fun _ => none) (some "=") ["-q", "-f", "a_test.go"]).exitCode
      = (run .backwards twoFiles oneTest (fun e => some (e.origin, 1)) none
          ["-vvv", "-f", "a_test.go"]).exitCode
    ∧ (run .backwards twoFiles oneTest (fun e => some (e.origin, 1)) none
        ["-vvv", "-f", "a_test.go"]).output = render false [recordIn "a_test.go"] ++ "\n"
    ∧ (run .backwards twoFiles oneTest (fun e => some (e.origin, 1)) none
        ["-vvv", "-f", "a_test.go"]).log.length = 4 := by
  have hread : readOptions ["-q", "-f", "a_test.go"]
      = .ok { askFor ⟨"a_test.go"⟩ with quiet := true } := rfl
  have hread' : readOptions ["-vvv", "-f", "a_test.go"]
      = .ok { askFor ⟨"a_test.go"⟩ with verbose := 3 } := rfl
  obtain ⟨houtput, hexit, -⟩ := run_output_eq hread hread'
    (rfl : run .inOrder twoFiles oneTest (fun _ => none) (some "=") ["-q", "-f", "a_test.go"] = _)
    (rfl : run .backwards twoFiles oneTest (fun e => some (e.origin, 1)) none
      ["-vvv", "-f", "a_test.go"] = _) ⟨rfl, rfl, rfl⟩
  exact ⟨hread, hread', houtput, hexit, by decide +kernel, by decide +kernel⟩

end TestCatalog.Command
