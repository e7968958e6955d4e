import Mathlib.Data.List.Basic
import TestCatalog.Command.Read
import TestCatalog.Proofs.Text.Order

/-!
# Proofs/Command/Written — options can be written in any arrangement

A command line is made of pieces: flags by their names or in clusters of letters, a file that is
attached to its option or follows it, and directories.  What counts is how often each flag is there
and in which order the directories are; where the pieces stand does not matter.

* `Adds` — what flags, files and directories add to options.
* `Heads` — a reading is on its way to options: what it has gathered can be accepted, and what is to
  come adds the rest.
* `Heads.piece`, `Heads.pieces` — a piece is read and the reading still heads for the same options;
  so for a list of them, whatever comes behind it.
* `readOptions_written` — pieces that add up to options are read as these options.
-/

namespace TestCatalog.Command

/-! ## Pieces of a command line -/

/-- The options that are flags: they take no value, and do not stop the reading. -/
inductive Flag where
  | pretty
  | quiet
  | verbose
deriving DecidableEq, Repr

/-- The flag as an option. -/
def Flag.switch : Flag → Switch
  | .pretty => .pretty
  | .quiet => .quiet
  | .verbose => .verbose

/-- The letters of flags. -/
def letters (flags : List Flag) : List UInt8 := flags.map (·.switch.letter.toUInt8)

/-- The letter of the option for the file. -/
def fileLetter : UInt8 := Switch.file.letter.toUInt8

/-- **A piece of a command line.** -/
inductive Piece where
  /-- A flag by its name, as in `--pretty`. -/
  | long (flag : Flag)
  /-- Flags by their letters, as in `-p` or `-vvq`. -/
  | cluster (first : Flag) (more : List Flag)
  /-- A file that is attached to its option, as in `--file=a`. -/
  | attached (file : Raw)
  /-- A file behind its option, which may end a cluster, as in `-f a` or `-pf a`. -/
  | pair (before : List Flag) (file : Raw)
  /-- A directory. -/
  | directory (value : Raw)
deriving DecidableEq, Repr

namespace Piece

/-- The arguments that a piece is made of. -/
def arguments : Piece → List Raw
  | long flag => [Raw.ofText "--" ++ flag.switch.longName]
  | cluster first more => [⟨hyphen :: letters (first :: more)⟩]
  | attached file => ["--file=" ++ file]
  | pair before file => [⟨hyphen :: (letters before ++ [fileLetter])⟩, file]
  | directory value => [value]

/-- The flags in a piece. -/
def flags : Piece → List Flag
  | long flag => [flag]
  | cluster first more => first :: more
  | pair before _ => before
  | _ => []

/-- The file in a piece, if there is one. -/
def files : Piece → List Raw
  | attached file | pair _ file => [file]
  | _ => []

/-- The directory that a piece is, if it is one. -/
def directories : Piece → List Raw
  | directory value => [value]
  | _ => []

/-- The values in a piece that are arguments of their own. -/
def operands : Piece → List Raw
  | pair _ value | directory value => [value]
  | _ => []

end Piece

/-- A value that is not taken for an option: it is a hyphen, or does not start with one. -/
def IsOperand (value : Raw) : Prop := value = "-" ∨ value.bytes.head? ≠ some hyphen

instance : DecidablePred IsOperand := fun _ => inferInstanceAs (Decidable (_ ∨ _))

/-- **What flags, files and directories add to options.**  A flag that is in the options already is
not among them, and neither is a second file. -/
structure Adds (o : Options) (flags : List Flag) (files directories : List Raw)
    (goal : Options) : Prop where
  pretty : o.pretty.toNat + flags.count .pretty = goal.pretty.toNat
  quiet : o.quiet.toNat + flags.count .quiet = goal.quiet.toNat
  verbose : o.verbose + flags.count .verbose = goal.verbose
  file : o.file.toList ++ files.map Path.mk = goal.file.toList
  directories : o.directories ++ directories.map Path.mk = goal.directories

/-- **Pieces that add up to options.** -/
def Writes (pieces : List Piece) (o : Options) : Prop :=
  Adds .initial (pieces.flatMap Piece.flags) (pieces.flatMap Piece.files)
    (pieces.flatMap Piece.directories) o

/-! ## Adding up -/

/-- The options with one flag more. -/
def Options.flagged (o : Options) : Flag → Options
  | .pretty => { o with pretty := true }
  | .quiet => { o with quiet := true }
  | .verbose => { o with verbose := o.verbose + 1 }

/-- What must not have been asked for, or not too often, for a flag to be read. -/
def Options.Allows (o : Options) : Flag → Prop
  | .pretty => o.pretty = false
  | .quiet => o.quiet = false
  | .verbose => o.verbose + 1 ≤ maxVerbose

theorem toNat_injective {a b : Bool} (h : a.toNat = b.toNat) : a = b := by
  revert h
  cases a <;> cases b <;> decide

theorem eq_false_of_toNat {a b : Bool} {n : Nat} (h : a.toNat + (n + 1) = b.toNat) :
    a = false ∧ n = 0 := by
  have hb := b.toNat_le
  exact ⟨Bool.toNat_eq_zero.mp (by omega), by omega⟩

namespace Adds

variable {o goal : Options} {flags : List Flag} {files directories : List Raw}

/-- Where nothing is added, the options are those to be reached. -/
theorem eq (h : Adds o [] [] [] goal) : o = goal := by
  rcases o with ⟨ds, f, p, v, q⟩
  rcases goal with ⟨ds', f', p', v', q'⟩
  obtain rfl : p = p' := toNat_injective h.pretty
  obtain rfl : q = q' := toNat_injective h.quiet
  obtain rfl : v = v' := h.verbose
  obtain rfl : ds = ds' := (List.append_nil ds).symm.trans h.directories
  obtain rfl : f = f' := by
    have hhead := congrArg List.head? ((List.append_nil f.toList).symm.trans h.file)
    rwa [Option.head?_toList, Option.head?_toList] at hhead
  rfl

/-- **A flag can be added now or later.** -/
theorem flag {f : Flag} (h : Adds o (f :: flags) files directories goal) :
    Adds (o.flagged f) flags files directories goal := by
  obtain ⟨hpretty, hquiet, hverbose, hfile, hdirectories⟩ := h
  rcases f with _ | _ | _
  · rw [List.count_cons_self] at hpretty
    obtain ⟨hnot, hnone⟩ := eq_false_of_toNat hpretty
    rw [hnot, hnone] at hpretty
    exact ⟨by rw [hnone]; exact hpretty, hquiet, hverbose, hfile, hdirectories⟩
  · rw [List.count_cons_self] at hquiet
    obtain ⟨hnot, hnone⟩ := eq_false_of_toNat hquiet
    rw [hnot, hnone] at hquiet
    exact ⟨hpretty, by rw [hnone]; exact hquiet, hverbose, hfile, hdirectories⟩
  · rw [List.count_cons_self] at hverbose
    exact ⟨hpretty, hquiet, by simp only [Options.flagged]; omega, hfile, hdirectories⟩

/-- A flag that is to be added has not been asked for too often. -/
theorem allows {f : Flag} (h : Adds o (f :: flags) files directories goal)
    (hgoal : goal.verbose ≤ maxVerbose) : o.Allows f := by
  obtain ⟨hpretty, hquiet, hverbose, -, -⟩ := h
  rcases f with _ | _ | _
  · rw [List.count_cons_self] at hpretty
    exact (eq_false_of_toNat hpretty).1
  · rw [List.count_cons_self] at hquiet
    exact (eq_false_of_toNat hquiet).1
  · rw [List.count_cons_self] at hverbose
    exact Nat.le_trans (by omega) hgoal

/-- A file can be added if there is none. -/
theorem file_eq_none {x : Raw} (h : Adds o flags (x :: files) directories goal) :
    o.file = none := by
  have hlength := congrArg List.length h.file
  have hgoal := goal.file.length_toList_le
  rw [List.length_append, List.map_cons, List.length_cons] at hlength
  exact Option.toList_eq_nil_iff.mp (List.length_eq_zero_iff.mp (by omega))

theorem withFile {x : Raw} (h : Adds o flags (x :: files) directories goal) :
    Adds { o with file := some ⟨x⟩ } flags files directories goal := by
  refine ⟨h.pretty, h.quiet, h.verbose, ?_, h.directories⟩
  have hfile := h.file
  rwa [h.file_eq_none] at hfile

theorem withDirectory {d : Raw} (h : Adds o flags files (d :: directories) goal) :
    Adds { o with directories := o.directories ++ [⟨d⟩] } flags files directories goal := by
  refine ⟨h.pretty, h.quiet, h.verbose, h.file, ?_⟩
  rw [List.append_assoc]
  exact h.directories

end Adds

/-! ## What is accepted -/

theorem withFile_eq_ok {o : Options} {x : Raw} (hfile : o.file = none) (hx : x ≠ "") :
    o.withFile x = .ok { o with file := some ⟨x⟩ } := by
  rw [Options.withFile, hfile, if_neg (by decide), if_neg (by rwa [Raw.isEmpty_iff])]

theorem withDirectories_eq_ok_iff {o o' : Options} {values : List Raw} :
    o.withDirectories values = .ok o'
      ↔ (∀ d ∈ values, d ≠ "")
        ∧ { o with directories := o.directories ++ values.map Path.mk } = o' := by
  have hany : values.any Raw.isEmpty = true ↔ ("" : Raw) ∈ values := by simp
  rw [Options.withDirectories]
  split_ifs with hempty
  · exact iff_of_false nofun fun h => h.1 "" (hany.mp hempty) rfl
  · have hne : ∀ d ∈ values, d ≠ "" := fun d hd heq => hempty (hany.mpr (heq ▸ hd))
    rw [Except.ok.injEq, and_iff_right hne]

section

variable {r : Reading} {o : Options} (h : r.settle = .ok o)
include h

/-- **A flag that is allowed is read.** -/
theorem switch_eq_ok {f : Flag} (hallows : o.Allows f) :
    r.switch f.switch = .ok ⟨o.flagged f, .nothing⟩ := by
  rw [Reading.switch, h]
  rcases f with _ | _ | _
  · exact if_neg (by rw [hallows]; decide)
  · exact if_neg (by rw [hallows]; decide)
  · have hmin : min (o.verbose + 1) maxVerbose = o.verbose + 1 := Nat.min_eq_left hallows
    simp only [Flag.switch, bind, Except.bind, hmin]
    rfl

/-- **A file that is attached is read**, if it is the first and not empty. -/
theorem attached_eq_ok {x : Raw} (hfile : o.file = none) (hx : x ≠ "") :
    r.attached x = .ok ⟨{ o with file := some ⟨x⟩ }, .nothing⟩ := by
  rw [Reading.attached, h]
  simp only [bind, Except.bind, withFile_eq_ok hfile hx]
  rfl

/-- **A directory is gathered**, and can be accepted if it is not empty. -/
theorem exists_directory {d : Raw} (hd : d ≠ "") :
    ∃ r', r.directory d = .ok r'
      ∧ r'.settle = .ok { o with directories := o.directories ++ [⟨d⟩] } := by
  have hfresh : ∃ r', (do return (⟨← r.settle, .directories [d]⟩ : Reading)) = .ok r'
      ∧ r'.settle = .ok { o with directories := o.directories ++ [⟨d⟩] } := by
    rw [h]
    exact ⟨⟨o, .directories [d]⟩, rfl,
      withDirectories_eq_ok_iff.mpr ⟨by simpa using hd, rfl⟩⟩
  rcases r with ⟨before, _ | values | value⟩
  · exact hfresh
  · obtain ⟨hvalues, rfl⟩ := withDirectories_eq_ok_iff.mp h
    refine ⟨⟨before, .directories (values ++ [d])⟩, rfl, withDirectories_eq_ok_iff.mpr ⟨?_, ?_⟩⟩
    · simpa using fun x hx => hx.elim (hvalues x) fun heq => heq ▸ hd
    · simp
  · exact hfresh

/-- Where the gathered values can be accepted, none is due, and a value is a directory. -/
theorem value_eq_directory (text : Raw) : r.value text = r.directory text := by
  rcases r with ⟨before, _ | values | _ | value⟩
  · rfl
  · rfl
  · cases h
  · rfl

end

/-! ## Arguments -/

section

variable (r : Reading) (rest : List Raw)

theorem arguments_long {text : List UInt8} (htext : text ≠ []) :
    r.arguments (⟨hyphen :: hyphen :: text⟩ :: rest)
      = (r.long text).bind (·.arguments rest) := by
  rw [Reading.arguments]
  simp only [ne_eq, not_true_eq_false, if_false, List.isEmpty_iff, htext]
  rfl

theorem arguments_short {b : UInt8} {text : List UInt8} (hb : b ≠ hyphen) :
    r.arguments (⟨hyphen :: b :: text⟩ :: rest)
      = (r.short (b :: text)).bind (·.arguments rest) := by
  rw [Reading.arguments]
  simp only [ne_eq, not_true_eq_false, if_false, hb, not_false_eq_true, if_true]
  rfl

theorem arguments_operand {value : Raw} (h : IsOperand value) :
    r.arguments (value :: rest) = (r.value value).bind (·.arguments rest) := by
  rw [Reading.arguments]
  rcases h with rfl | hhead
  · rfl
  · split
    · next a b text hbytes =>
      have ha : a ≠ hyphen := fun heq => hhead (by rw [hbytes, heq]; rfl)
      rw [if_pos ha]
      rfl
    · rfl

/-- The name of a flag stands behind two hyphens, and is read as the flag. -/
theorem exists_bytes_long (f : Flag) :
    ∃ text, Raw.ofText "--" ++ Raw.ofText f.switch.longName = ⟨hyphen :: hyphen :: text⟩
      ∧ text ≠ [] ∧ ∀ r : Reading, r.long text = r.switch f.switch := by
  rcases f with _ | _ | _
  · exact ⟨_, rfl, by decide, fun _ => rfl⟩
  · exact ⟨_, rfl, by decide, fun _ => rfl⟩
  · exact ⟨_, rfl, by decide, fun _ => rfl⟩

theorem letter_ne_hyphen (f : Flag) : f.switch.letter.toUInt8 ≠ hyphen := by
  rcases f with _ | _ | _ <;> decide

theorem short_letter (f : Flag) (text : List UInt8) :
    r.short (f.switch.letter.toUInt8 :: text) = (r.switch f.switch).bind (·.short text) := by
  rcases f with _ | _ | _ <;> rfl

/-- An option for the file that has its value attached to it. -/
theorem arguments_attached (value : Raw) :
    r.arguments (("--file=" ++ value) :: rest) = (r.attached value).bind (·.arguments rest) := by
  have hlong : r.long (Text.bytes "file=" ++ value.bytes) = r.attached value := rfl
  rw [← hlong]
  exact arguments_long r rest (List.cons_ne_nil _ _)

/-- Letters of flags and that of the file, whether there are any flags or none. -/
theorem arguments_cluster (fs : List Flag) :
    r.arguments (⟨hyphen :: (letters fs ++ [fileLetter])⟩ :: rest)
      = (r.short (letters fs ++ [fileLetter])).bind (·.arguments rest) := by
  rcases fs with _ | ⟨f, fs⟩
  · exact arguments_short r rest (by decide)
  · exact arguments_short r rest (letter_ne_hyphen f)

end

/-! ## Readings on their way -/

/-- **A reading heads for options**: what it has gathered can be accepted, and what is to come adds
the rest. -/
def Heads (r : Reading) (flags : List Flag) (files directories : List Raw)
    (goal : Options) : Prop :=
  ∃ o, r.settle = .ok o ∧ Adds o flags files directories goal

namespace Heads

variable {r : Reading} {flags : List Flag} {files directories : List Raw} {goal : Options}

theorem settle_eq (h : Heads r [] [] [] goal) : r.settle = .ok goal := by
  obtain ⟨o, hsettle, hadds⟩ := h
  rw [hsettle, hadds.eq]

theorem switch {f : Flag} (h : Heads r (f :: flags) files directories goal)
    (hgoal : goal.verbose ≤ maxVerbose) :
    ∃ r', r.switch f.switch = .ok r' ∧ Heads r' flags files directories goal := by
  obtain ⟨o, hsettle, hadds⟩ := h
  exact ⟨_, switch_eq_ok hsettle (hadds.allows hgoal), o.flagged f, rfl, hadds.flag⟩

/-- Letters of flags are read one after another. -/
theorem short {fs : List Flag} (h : Heads r (fs ++ flags) files directories goal)
    (hgoal : goal.verbose ≤ maxVerbose) :
    ∃ r', (∀ text, r.short (letters fs ++ text) = r'.short text)
      ∧ Heads r' flags files directories goal := by
  induction fs generalizing r with
  | nil => exact ⟨r, fun _ => rfl, h⟩
  | cons f fs ih =>
    obtain ⟨r₁, hswitch, h₁⟩ := h.switch hgoal
    obtain ⟨r₂, hshort, h₂⟩ := ih h₁
    refine ⟨r₂, fun text => ?_, h₂⟩
    calc r.short (letters (f :: fs) ++ text)
      _ = (r.switch f.switch).bind (·.short (letters fs ++ text)) := short_letter r f _
      _ = r₂.short text := by rw [hswitch]; exact hshort text

theorem attached {x : Raw} (h : Heads r flags (x :: files) directories goal) (hx : x ≠ "") :
    ∃ r', r.attached x = .ok r' ∧ Heads r' flags files directories goal := by
  obtain ⟨o, hsettle, hadds⟩ := h
  exact ⟨_, attached_eq_ok hsettle hadds.file_eq_none hx, _, rfl, hadds.withFile⟩

theorem directory {d : Raw} (h : Heads r flags files (d :: directories) goal) (hd : d ≠ "") :
    ∃ r', r.directory d = .ok r' ∧ Heads r' flags files directories goal := by
  obtain ⟨o, hsettle, hadds⟩ := h
  obtain ⟨r', hread, hsettle'⟩ := exists_directory hsettle hd
  exact ⟨r', hread, _, hsettle', hadds.withDirectory⟩

/-- Behind the letter of its option, a file is read as the next argument. -/
theorem file {x : Raw} (h : Heads r flags (x :: files) directories goal) (hx : x ≠ "") :
    ∃ r₁ r₂, r.short [fileLetter] = .ok r₁ ∧ r₁.value x = .ok r₂
      ∧ Heads r₂ flags files directories goal := by
  obtain ⟨o, hsettle, hadds⟩ := h
  refine ⟨⟨o, .file none⟩, ⟨o, .file (some x)⟩, ?_, rfl, _, ?_, hadds.withFile⟩
  · change r.switch .file = _
    rw [Reading.switch, hsettle]
    rfl
  · exact withFile_eq_ok hadds.file_eq_none hx

/-- **A piece is read, whatever comes behind it**, and the reading still heads for the same
options. -/
theorem piece {p : Piece} (hgoal : goal.verbose ≤ maxVerbose)
    (hvalues : ∀ x ∈ p.files ++ p.directories, x ≠ "") (hoperands : ∀ x ∈ p.operands, IsOperand x)
    (h : Heads r (p.flags ++ flags) (p.files ++ files) (p.directories ++ directories) goal) :
    ∃ r', (∀ rest, r.arguments (p.arguments ++ rest) = r'.arguments rest)
      ∧ Heads r' flags files directories goal := by
  rcases p with f | ⟨f, fs⟩ | x | ⟨fs, x⟩ | d
  · obtain ⟨r', hread, h'⟩ := h.switch hgoal
    obtain ⟨text, hbytes, htext, hlong⟩ := exists_bytes_long f
    refine ⟨r', fun rest => ?_, h'⟩
    calc r.arguments ((Raw.ofText "--" ++ f.switch.longName) :: rest)
      _ = (r.long text).bind (·.arguments rest) := by rw [hbytes, arguments_long r rest htext]
      _ = r'.arguments rest := by rw [hlong, hread]; rfl
  · obtain ⟨r', hread, h'⟩ := h.short hgoal
    have hshort : r.short (letters (f :: fs)) = .ok r' :=
      (congrArg r.short (List.append_nil _).symm).trans (hread [])
    refine ⟨r', fun rest => ?_, h'⟩
    calc r.arguments (⟨hyphen :: letters (f :: fs)⟩ :: rest)
      _ = (r.short (letters (f :: fs))).bind (·.arguments rest) :=
          arguments_short r rest (letter_ne_hyphen f)
      _ = r'.arguments rest := by rw [hshort]; rfl
  · obtain ⟨r', hread, h'⟩ := h.attached (hvalues x List.mem_cons_self)
    refine ⟨r', fun rest => ?_, h'⟩
    calc r.arguments (("--file=" ++ x) :: rest)
      _ = (r.attached x).bind (·.arguments rest) := arguments_attached r rest x
      _ = r'.arguments rest := by rw [hread]; rfl
  · -- the letters of the flags are read first, then that of the file, and the file at last
    obtain ⟨r₁, hread₁, h₁⟩ := h.short hgoal
    obtain ⟨r₂, r₃, hread₂, hread₃, h₃⟩ := h₁.file (hvalues x List.mem_cons_self)
    have hshort : r.short (letters fs ++ [fileLetter]) = .ok r₂ :=
      (hread₁ [fileLetter]).trans hread₂
    refine ⟨r₃, fun rest => ?_, h₃⟩
    calc r.arguments (⟨hyphen :: (letters fs ++ [fileLetter])⟩ :: x :: rest)
      _ = (r.short (letters fs ++ [fileLetter])).bind (·.arguments (x :: rest)) :=
          arguments_cluster r (x :: rest) fs
      _ = r₂.arguments (x :: rest) := by rw [hshort]; rfl
      _ = (r₂.value x).bind (·.arguments rest) :=
          arguments_operand r₂ rest (hoperands x List.mem_cons_self)
      _ = r₃.arguments rest := by rw [hread₃]; rfl
  · obtain ⟨o, hsettle, -⟩ := id h
    obtain ⟨r', hread, h'⟩ := h.directory (hvalues d List.mem_cons_self)
    refine ⟨r', fun rest => ?_, h'⟩
    calc r.arguments (d :: rest)
      _ = (r.value d).bind (·.arguments rest) :=
          arguments_operand r rest (hoperands d List.mem_cons_self)
      _ = r'.arguments rest := by rw [value_eq_directory hsettle, hread]; rfl

/-- **So are any number of pieces.** -/
theorem pieces {ps : List Piece} (hgoal : goal.verbose ≤ maxVerbose)
    (hvalues : ∀ p ∈ ps, ∀ x ∈ p.files ++ p.directories, x ≠ "")
    (hoperands : ∀ p ∈ ps, ∀ x ∈ p.operands, IsOperand x)
    (h : Heads r (ps.flatMap Piece.flags ++ flags) (ps.flatMap Piece.files ++ files)
      (ps.flatMap Piece.directories ++ directories) goal) :
    ∃ r', (∀ rest, r.arguments (ps.flatMap Piece.arguments ++ rest) = r'.arguments rest)
      ∧ Heads r' flags files directories goal := by
  induction ps generalizing r with
  | nil => exact ⟨r, fun _ => rfl, h⟩
  | cons p ps ih =>
    simp only [List.flatMap_cons, List.append_assoc] at h ⊢
    obtain ⟨hp, hps⟩ := List.forall_mem_cons.mp hvalues
    obtain ⟨hp', hps'⟩ := List.forall_mem_cons.mp hoperands
    obtain ⟨r₁, hread₁, h₁⟩ := h.piece hgoal hp hp'
    obtain ⟨r₂, hread₂, h₂⟩ := ih hps hps' h₁
    exact ⟨r₂, fun rest => (hread₁ _).trans (hread₂ rest), h₂⟩

/-- Behind two hyphens every argument is a directory, whatever it looks like. -/
theorem values (hne : ∀ d ∈ directories, d ≠ "") (h : Heads r [] [] directories goal) :
    ∃ r', r.values directories = .ok r' ∧ r'.settle = .ok goal := by
  induction directories generalizing r with
  | nil => exact ⟨r, rfl, h.settle_eq⟩
  | cons d directories ih =>
    obtain ⟨hd, hrest⟩ := List.forall_mem_cons.mp hne
    obtain ⟨r₁, hread, h₁⟩ := h.directory hd
    obtain ⟨r₂, hreads, hsettle⟩ := ih hrest h₁
    refine ⟨r₂, ?_, hsettle⟩
    rw [Reading.values, hread]
    exact hreads

end Heads

/-! ## Command lines -/

theorem readOptions_of_arguments {arguments : List Raw} {r : Reading} {o : Options}
    (h : Reading.start.arguments arguments = .ok r) (hsettle : r.settle = .ok o) :
    readOptions arguments = .ok o := by
  rw [readOptions, h]
  exact hsettle

theorem map_mk_text (paths : List Path) : (paths.map Path.text).map Path.mk = paths :=
  List.map_map.trans (List.map_id paths)

theorem Piece.mem_of_operand {p : Piece} {x : Raw} (h : x ∈ p.operands) :
    x ∈ p.files ++ p.directories := by
  rcases p with _ | _ | _ | _ | _
  · cases h
  · cases h
  · cases h
  · exact h
  · exact h

namespace Writes

variable {ps : List Piece} {o : Options}

/-- The values in the pieces are those of the options. -/
theorem mem_values (h : Writes ps o) {p : Piece} (hp : p ∈ ps) {x : Raw}
    (hx : x ∈ p.files ++ p.directories) : ⟨x⟩ ∈ o.file.toList ++ o.directories := by
  rw [← h.file, ← h.directories]
  rcases List.mem_append.mp hx with hx | hx
  · exact List.mem_append_left _ (List.mem_map_of_mem (List.mem_flatMap.mpr ⟨p, hp, hx⟩))
  · exact List.mem_append_right _ (List.mem_map_of_mem (List.mem_flatMap.mpr ⟨p, hp, hx⟩))

/-- What holds of the file and the directories holds of all values in the pieces. -/
theorem forall_values (h : Writes ps o) {P : Raw → Prop} (hfile : ∀ f ∈ o.file, P f.text)
    (hdirectories : ∀ d ∈ o.directories, P d.text) :
    ∀ p ∈ ps, ∀ x ∈ p.files ++ p.directories, P x := by
  intro p hp x hx
  rcases List.mem_append.mp (h.mem_values hp hx) with hmem | hmem
  · exact hfile _ (Option.mem_toList.mp hmem)
  · exact hdirectories _ hmem

/-- At the start, all that the pieces have is to come, and the directories behind them. -/
theorem heads_start {ds : List Path} (h : Writes ps { o with directories := ds })
    {later : List Raw} (hlater : ds ++ later.map Path.mk = o.directories) :
    Heads .start (ps.flatMap Piece.flags ++ []) (ps.flatMap Piece.files ++ [])
      (ps.flatMap Piece.directories ++ later) o := by
  refine ⟨.initial, rfl, ?_⟩
  rw [List.append_nil, List.append_nil]
  refine ⟨h.pretty, h.quiet, h.verbose, h.file, ?_⟩
  have hdirectories := h.directories
  rw [List.map_append, ← List.append_assoc, hdirectories]
  exact hlater

end Writes

/-- The flags of options. -/
def Options.flags (o : Options) : List Flag :=
  List.replicate o.pretty.toNat .pretty ++ List.replicate o.quiet.toNat .quiet
    ++ List.replicate o.verbose .verbose

/-- The options but for the directories, written by names. -/
def Options.named (o : Options) : List Piece :=
  o.flags.map .long ++ o.file.toList.map fun f => .attached f.text

theorem operands_named (o : Options) : ∀ p ∈ o.named, p.operands = [] := by
  intro p hp
  rcases List.mem_append.mp hp with hp | hp
  · obtain ⟨f, -, rfl⟩ := List.mem_map.mp hp
    rfl
  · obtain ⟨f, -, rfl⟩ := List.mem_map.mp hp
    rfl

/-- **All options but the directories can be written by names.** -/
theorem writes_named (o : Options) : Writes o.named { o with directories := [] } := by
  have hflags : o.named.flatMap Piece.flags = o.flags := by
    simp [Options.named, List.flatMap_map, Piece.flags]
  have hfiles : o.named.flatMap Piece.files = o.file.toList.map Path.text := by
    have hnone : o.flags.flatMap (fun _ => ([] : List Raw)) = [] := by simp
    rw [Options.named, List.flatMap_append, List.flatMap_map, List.flatMap_map]
    exact (congrArg (· ++ _) hnone).trans List.map_eq_flatMap.symm
  have hdirectories : o.named.flatMap Piece.directories = [] := by
    simp [Options.named, List.flatMap_map, Piece.directories]
  rw [Writes, hflags, hfiles, hdirectories]
  constructor
  · simp [Options.flags, Options.initial, List.count_replicate]
  · simp [Options.flags, Options.initial, List.count_replicate]
  · simp [Options.flags, Options.initial, List.count_replicate]
  · exact map_mk_text o.file.toList
  · rfl

/-- **Options can be written in any arrangement and are read back.**  All but the directories can be
written by flags and an attached file; however this is done, two hyphens and the directories may
follow, whatever these look like.  If no value looks like an option, all can be written by pieces in
any order but that of the directories. -/
theorem readOptions_written (o : Options) (hdirectories : ∀ d ∈ o.directories, d.text ≠ "")
    (hfile : ∀ f ∈ o.file, f.text ≠ "") (hverbose : o.verbose ≤ maxVerbose) :
    (∃ pieces : List Piece, (∀ p ∈ pieces, p.operands = [])
      ∧ Writes pieces { o with directories := [] })
    ∧ (∀ pieces : List Piece, (∀ p ∈ pieces, p.operands = []) →
      Writes pieces { o with directories := [] } →
      readOptions (pieces.flatMap Piece.arguments ++ ("--" : Raw) :: o.directories.map Path.text)
        = .ok o)
    ∧ ((∀ d ∈ o.directories, IsOperand d.text) → (∀ f ∈ o.file, IsOperand f.text) →
      ∀ pieces : List Piece, Writes pieces o →
      readOptions (pieces.flatMap Piece.arguments) = .ok o) := by
  refine ⟨⟨o.named, operands_named o, writes_named o⟩, ?_, ?_⟩
  · intro ps hoperands hwrites
    have hvalues := hwrites.forall_values (P := (· ≠ "")) hfile nofun
    have hstart : Heads .start (ps.flatMap Piece.flags ++ []) (ps.flatMap Piece.files ++ [])
        (ps.flatMap Piece.directories ++ o.directories.map Path.text) o :=
      hwrites.heads_start (map_mk_text o.directories)
    obtain ⟨r, hread, hheads⟩ := hstart.pieces hverbose hvalues
      fun p hp x hx => absurd (hoperands p hp ▸ hx) List.not_mem_nil
    obtain ⟨r', hreads, hsettle⟩ := hheads.values (by simpa using hdirectories)
    exact readOptions_of_arguments ((hread _).trans hreads) hsettle
  · intro hoperand hoperand' ps hwrites
    have hvalues := hwrites.forall_values (P := (· ≠ "")) hfile hdirectories
    have hoperands := hwrites.forall_values (P := IsOperand) hoperand' hoperand
    have hstart : Heads .start (ps.flatMap Piece.flags ++ []) (ps.flatMap Piece.files ++ [])
        (ps.flatMap Piece.directories ++ []) o :=
      hwrites.heads_start (List.append_nil o.directories)
    obtain ⟨r, hread, hheads⟩ := hstart.pieces hverbose hvalues
      fun p hp x hx => hoperands p hp x (Piece.mem_of_operand hx)
    rw [← List.append_nil (ps.flatMap _)]
    exact readOptions_of_arguments (hread []) hheads.settle_eq

/-- Options whose file and directories look like options. -/
def disguised : Options := ⟨[⟨"--"⟩, ⟨"-p"⟩], some ⟨"-f=x"⟩, true, 3, true⟩

/-- Options whose file and first directory are a hyphen. -/
def hyphens : Options := ⟨[⟨"-"⟩, ⟨"b"⟩], some ⟨"-"⟩, true, 2, false⟩

/-- Values that look like options are read as what they are behind `--` and attached to `--file`,
and a hyphen is read as a value wherever it stands. -/
theorem disguised_written :
    readOptions ["-vp", "--file=-f=x", "--verbose", "-qv", "--", "--", "-p"] = .ok disguised
    ∧ readOptions ["-", "-vf", "-", "--verbose", "b", "-p"] = .ok hyphens := by
  obtain ⟨-, hbehind, -⟩ := readOptions_written disguised (by decide) (by decide) (by decide)
  obtain ⟨-, -, hamong⟩ := readOptions_written hyphens (by decide) (by decide) (by decide)
  constructor
  · exact hbehind [.cluster .verbose [.pretty], .attached "-f=x", .long .verbose,
      .cluster .quiet [.verbose]] (by decide) ⟨rfl, rfl, rfl, rfl, rfl⟩
  · exact hamong (by decide) (by decide)
      [.directory "-", .pair [.verbose] "-", .long .verbose, .directory "b", .cluster .pretty []]
      ⟨rfl, rfl, rfl, rfl, rfl⟩

end TestCatalog.Command
