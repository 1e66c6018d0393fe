import FreeProxy.Lib.CString
import FreeProxy.Lib.Ipv4

/-!
# The daemon by its command line

`process_is_ours` of `src/process.c` with `exe_is_free_proxy` and `cmdline_is_run`, over what `/proc`
shows of a process.

`cmdline_is_run` reads `255` letters of the command line into an array on the stack and ends them with
nothing. So the answer comes from the command line only as long as the second argument, up to the letter
that decides it, is among them.

Headline: **`cmdline_recognised_iff`**.

Out of scope: a process that runs another program between two reads of its files.
-/

namespace FreeProxy.Cmdline

open Lib

/-- The end of a string. -/
def nul : Char := Char.ofNat 0

/-- An argument is a string. -/
structure Arg where
  text : List Char
  noNul : nul ∉ text

/-! ## The code -/

/-- `"run"`. -/
def runText : List Char := ['r', 'u', 'n']

/-- `sizeof(command)`. -/
def commandSize : Nat := 256

/-- `read(command_fd, command, sizeof(command) - 1)`. -/
def readCommand (cmdline : List Char) : List Char := cmdline.take (commandSize - 1)

/-- The stack from `command` on, when `got` was read into it. -/
def readInto (memory : Nat → Char) (got : List Char) : Nat → Char := fun i => got[i]?.getD (memory i)

/-- `cmdline_is_run`, with the places of `command` that it reads. `cmdline` is the file, when it can be
read; `memory` is the stack before. -/
def cmdlineIsRun (memory : Nat → Char) (cmdline : Option (List Char)) : Bool × List Nat :=
  match cmdline with
  | none => (false, [])
  | some cmdline =>
    let got := readCommand cmdline
    let command := readInto memory got
    if got.length = 0 then (false, []) else
    let firstArgument := strnlen nul command 0 got.length
    if got.length ≤ firstArgument.1 + 1 then (false, firstArgument.2) else
    let run := strcmp nul command (firstArgument.1 + 1) runText
    (run.1, firstArgument.2 ++ run.2)

/-- `"free_proxy"`. -/
def freeProxyText : List Char := ['f', 'r', 'e', 'e', '_', 'p', 'r', 'o', 'x', 'y']

/-- `"free_proxy (deleted)"`. -/
def deletedText : List Char := freeProxyText ++ [' ', '(', 'd', 'e', 'l', 'e', 't', 'e', 'd', ')']

/-- `exe_is_free_proxy`. -/
def exeIsFreeProxy (target : List Char) : Bool :=
  let binaryName := match cutLast '/' target with
    | some (_, name) => name
    | none => target
  binaryName == freeProxyText || binaryName == deletedText

/-- What `/proc` shows of a process, as far as it can be read. -/
structure ProcFiles where
  /-- `process_start_time` -/
  startTime : Option Nat
  exe : Option (List Char)
  cmdline : Option (List Char)

/-- `sizeof(target)`. -/
def targetSize : Nat := 4096

/-- `process_is_ours`. The comparison with the caller's own executable does not change the answer. -/
def processIsOurs (memory : Nat → Char) (files : ProcFiles) (expectedStartTime : Nat) : Bool :=
  if files.startTime ≠ some expectedStartTime then false else
  match files.exe with
  | none => false
  | some exe => exeIsFreeProxy (exe.take (targetSize - 1)) && (cmdlineIsRun memory files.cmdline).1

/-! ## The processes -/

/-- The file for a process with these arguments. -/
def image (argv : List Arg) : List Char := argv.flatMap fun arg => arg.text ++ [nul]

/-- The first argument of a daemon. -/
def runArg : Arg := ⟨runText, by decide⟩

/-- `--ready-fd`. -/
def readyArg : Arg := ⟨['-', '-', 'r', 'e', 'a', 'd', 'y', '-', 'f', 'd'], by decide⟩

/-- The path of a binary. -/
def binaryIn (directory : Arg) : Arg where
  text := directory.text ++ '/' :: freeProxyText
  noNul := by
    rw [List.mem_append, not_or]
    exact ⟨directory.noNul, by decide⟩

/-- The arguments of the `execl` of `fp_start_daemon`. -/
def daemonArgv (executable readyFdText : Arg) : List Arg := [executable, runArg, readyArg, readyFdText]

/-- The daemon that `fp_start_daemon` launches. -/
def daemonFiles (executable readyFdText : Arg) (startTime : Nat) : ProcFiles :=
  ⟨some startTime, some executable.text, some (image (daemonArgv executable readyFdText))⟩

/-- The answer is right, and nothing is read that was not read from the file. -/
def Recognised (argv : List Arg) : Prop :=
  ∀ memory, ((cmdlineIsRun memory (some (image argv))).1 = true ↔ argv[1]?.map Arg.text = some runText) ∧
    ∀ p ∈ (cmdlineIsRun memory (some (image argv))).2, p < (readCommand (image argv)).length

/-- The letters that decide about the second argument are among the first `255`. -/
def Fits : List Arg → Prop
  | program :: command :: _ =>
    if program.text.length < 254 then program.text.length + shared command.text runText < 254
    else command.text ≠ runText
  | _ => True

/-! ## What is read -/

section Read

variable {memory : Nat → Char}

theorem holds_readInto (memory : Nat → Char) (got : List Char) : Holds (readInto memory got) 0 got :=
  holds_of_get fun j h => by simp [readInto, h]

/-- Behind what was read is what was there. -/
theorem readInto_beyond {got : List Char} {i : Nat} (h : got.length ≤ i) :
    readInto memory got i = memory i := by
  simp [readInto, h]

theorem image_cons (arg : Arg) (argv : List Arg) : image (arg :: argv) = arg.text ++ nul :: image argv := by
  simp [image]

theorem readCommand_length_le (cmdline : List Char) : (readCommand cmdline).length ≤ 255 := by
  simp [readCommand, commandSize]

/-- A prefix of what was read. -/
theorem holds_prefix (memory : Nat → Char) {s got : List Char} (h : s <+: got) :
    Holds (readInto memory got) 0 s := by
  obtain ⟨rest, rfl⟩ := h
  exact (holds_append.mp (holds_readInto memory _)).1

/-- Nothing is left for a second argument. -/
theorem cmdlineIsRun_short {cmdline : List Char}
    (h : (readCommand cmdline).length ≤
      (strnlen nul (readInto memory (readCommand cmdline)) 0 (readCommand cmdline).length).1 + 1) :
    (cmdlineIsRun memory (some cmdline)).1 = false ∧
    ∀ p ∈ (cmdlineIsRun memory (some cmdline)).2, p < (readCommand cmdline).length := by
  unfold cmdlineIsRun
  by_cases hempty : (readCommand cmdline).length = 0
  · simp [hempty]
  · simp only [if_neg hempty, if_pos h, true_and]
    intro p hp
    have hlt := strnlen_reads hp
    omega

/-- What was read begins with the name of the program. -/
theorem take_readCommand (program : Arg) (argv : List Arg) {n : Nat} (hn : n ≤ 255)
    (hname : n ≤ program.text.length) :
    (readCommand (image (program :: argv))).take n = program.text.take n := by
  have hsize : n ≤ commandSize - 1 := hn
  rw [readCommand, List.take_take, Nat.min_eq_left hsize, image_cons, List.take_append_of_le_length hname]

/-- The name of the program fills what was read. -/
theorem cmdlineIsRun_cut (memory : Nat → Char) (program : Arg) (argv : List Arg)
    (h : (readCommand (image (program :: argv))).length ≤ program.text.length + 1) :
    (cmdlineIsRun memory (some (image (program :: argv)))).1 = false ∧
    ∀ p ∈ (cmdlineIsRun memory (some (image (program :: argv)))).2,
      p < (readCommand (image (program :: argv))).length := by
  refine cmdlineIsRun_short ?_
  have hlength := readCommand_length_le (image (program :: argv))
  have htake := fun n => take_readCommand program argv (n := n)
  generalize readCommand (image (program :: argv)) = got at h hlength htake ⊢
  -- all but the last letter belong to the name
  have hname := htake (got.length - 1) (by omega) (by omega)
  have hholds := holds_prefix memory (List.take_prefix (got.length - 1) got)
  rw [hname] at hholds
  have hle := le_strnlen (n := got.length) hholds (fun hmem => program.noNul (List.mem_of_mem_take hmem))
    (by rw [List.length_take]; omega)
  rw [List.length_take] at hle
  omega

theorem readCommand_image (program : Arg) (argv : List Arg) (h : program.text.length < 254) :
    readCommand (image (program :: argv)) =
      program.text ++ nul :: (image argv).take (254 - program.text.length) := by
  have hroom : commandSize - 1 - program.text.length = 254 - program.text.length + 1 := by
    unfold commandSize
    omega
  rw [readCommand, image_cons, List.take_append, List.take_of_length_le (by unfold commandSize; omega),
    hroom, List.take_succ_cons]

/-- There is a second argument behind the name of the program. -/
theorem cmdlineIsRun_behind (program command : Arg) (argv : List Arg) (h : program.text.length < 254) :
    cmdlineIsRun memory (some (image (program :: command :: argv))) =
      let got := readCommand (image (program :: command :: argv))
      let run := strcmp nul (readInto memory got) (program.text.length + 1) runText
      (run.1, (strnlen nul (readInto memory got) 0 got.length).2 ++ run.2) := by
  unfold cmdlineIsRun
  dsimp only
  have hgot := readCommand_image program (command :: argv) h
  generalize readCommand (image (program :: command :: argv)) = got at hgot ⊢
  have hlength : program.text.length + 1 < got.length := by
    rw [hgot, List.length_append, List.length_cons, List.length_take, image_cons, List.length_append,
      List.length_cons]
    omega
  have hholds : Holds (readInto memory got) 0 (program.text ++ [nul]) := by
    refine holds_prefix memory ⟨(image (command :: argv)).take (254 - program.text.length), ?_⟩
    rw [hgot, List.append_assoc]
    rfl
  have hfirst := strnlen_of_holds (n := got.length) hholds program.noNul (by omega)
  rw [if_neg (by omega), hfirst, if_neg (by omega)]

/-- The second argument, as far as it was read. -/
theorem holds_command (memory : Nat → Char) (program command : Arg) (argv : List Arg)
    (h : program.text.length < 254) :
    Holds (readInto memory (readCommand (image (program :: command :: argv)))) (program.text.length + 1)
      ((command.text ++ nul :: image argv).take (254 - program.text.length)) := by
  have hall := holds_readInto memory (readCommand (image (program :: command :: argv)))
  have hgot := readCommand_image program (command :: argv) h
  rw [List.append_cons] at hgot
  generalize readInto memory (readCommand (image (program :: command :: argv))) = stack at hall ⊢
  rw [hgot, holds_append, image_cons] at hall
  simpa using hall.2

/-- As far as it was read, when that is not all of it. -/
theorem holds_command_take (memory : Nat → Char) (program command : Arg) (argv : List Arg)
    (h : program.text.length < 254)
    (hlong : 254 - program.text.length ≤ shared command.text runText) :
    Holds (readInto memory (readCommand (image (program :: command :: argv)))) (program.text.length + 1)
      (command.text.take (254 - program.text.length)) := by
  have hholds := holds_command memory program command argv h
  rw [List.take_append_of_le_length (hlong.trans (shared_le_left _ _))] at hholds
  exact hholds

theorem cmdlineIsRun_fits (memory : Nat → Char) (program command : Arg) (argv : List Arg)
    (h : program.text.length < 254) (hfits : program.text.length + shared command.text runText < 254) :
    cmdlineIsRun memory (some (image (program :: command :: argv))) =
      let got := readCommand (image (program :: command :: argv))
      (decide (command.text = runText), (strnlen nul (readInto memory got) 0 got.length).2 ++
        List.range' (program.text.length + 1) (shared command.text runText + 1)) := by
  rw [cmdlineIsRun_behind program command argv h]
  dsimp only
  rw [strcmp_of_holds (holds_command memory program command argv h) command.noNul (by decide) (by omega)]

end Read

/-! ## What is recognised -/

theorem recognised_nil : Recognised [] := by
  intro memory
  simp [cmdlineIsRun, image, readCommand]

theorem recognised_single (program : Arg) : Recognised [program] := by
  intro memory
  have hlength : (readCommand (image [program])).length ≤ program.text.length + 1 := by
    simp [readCommand, image]
  obtain ⟨hanswer, hreads⟩ := cmdlineIsRun_cut memory program [] hlength
  exact ⟨by simp [hanswer], hreads⟩

theorem recognised_cut (program command : Arg) (argv : List Arg) (h : 254 ≤ program.text.length) :
    Recognised (program :: command :: argv) ↔ command.text ≠ runText := by
  have hcut := fun memory => cmdlineIsRun_cut memory program (command :: argv)
    ((readCommand_length_le _).trans (by omega))
  constructor
  · intro hrec heq
    have hanswer := (hrec fun _ => nul).1.mpr (by simp [heq])
    rw [(hcut _).1] at hanswer
    cases hanswer
  · intro hne memory
    exact ⟨by simp [(hcut memory).1, hne], (hcut memory).2⟩

theorem recognised_behind (program command : Arg) (argv : List Arg) (h : program.text.length < 254) :
    Recognised (program :: command :: argv) ↔ program.text.length + shared command.text runText < 254 := by
  constructor
  · intro hrec
    by_contra hlong
    have hlong' : 254 - program.text.length ≤ shared command.text runText := by omega
    have hreads := (hrec fun _ => nul).2
    rw [cmdlineIsRun_behind program command argv h] at hreads
    have hlt := hreads _ (List.mem_append_right _
      (strcmp_reads_beyond (holds_command_take (fun _ => nul) program command argv h hlong') hlong'))
    have hlength := readCommand_length_le (image (program :: command :: argv))
    omega
  · intro hfits memory
    rw [cmdlineIsRun_fits memory program command argv h hfits]
    refine ⟨by simp, fun p hp => ?_⟩
    rcases List.mem_append.mp hp with hp | hp
    · have hlt := strnlen_reads hp
      omega
    · have hle := shared_le_left command.text runText
      obtain ⟨i, hi, rfl⟩ := List.mem_range'.mp hp
      rw [readCommand_image program (command :: argv) h, List.length_append, List.length_cons,
        List.length_take, image_cons, List.length_append, List.length_cons]
      omega

theorem recognised_iff (argv : List Arg) : Recognised argv ↔ Fits argv := by
  match argv with
  | [] => exact iff_of_true recognised_nil trivial
  | [program] => exact iff_of_true (recognised_single program) trivial
  | program :: command :: argv =>
    by_cases h : program.text.length < 254
    · rw [Fits, if_pos h]
      exact recognised_behind program command argv h
    · rw [Fits, if_neg h]
      exact recognised_cut program command argv (by omega)

/-! ## The daemon -/

theorem exeIsFreeProxy_binaryIn (directory : Arg) (h : (binaryIn directory).text.length ≤ 250) :
    exeIsFreeProxy ((binaryIn directory).text.take (targetSize - 1)) = true := by
  have hname : cutLast '/' (binaryIn directory).text = some (directory.text, freeProxyText) :=
    cutLast_append (by decide)
  rw [List.take_of_length_le (h.trans (by decide)), exeIsFreeProxy, hname]
  rfl

/-- The daemon is accepted for its command line alone. -/
theorem processIsOurs_daemon (memory : Nat → Char) (directory readyFdText : Arg) (startTime : Nat) :
    processIsOurs memory (daemonFiles (binaryIn directory) readyFdText startTime) startTime =
      (exeIsFreeProxy ((binaryIn directory).text.take (targetSize - 1)) &&
        (cmdlineIsRun memory (some (image (daemonArgv (binaryIn directory) readyFdText)))).1) := by
  simp [processIsOurs, daemonFiles]

/-- A letter behind the array that is neither a letter of `run` nor its end. -/
theorem cmdlineIsRun_stale (executable readyFdText : Arg) (h : 250 < executable.text.length) :
    (cmdlineIsRun (fun _ => 'x') (some (image (daemonArgv executable readyFdText)))).1 = false := by
  unfold daemonArgv
  by_cases hlong : 254 ≤ executable.text.length
  · exact (cmdlineIsRun_cut _ executable _ ((readCommand_length_le _).trans (by omega))).1
  · have hshort : executable.text.length < 254 := by omega
    have hrun : 254 - executable.text.length ≤ shared runArg.text runText := by
      have hshared : shared runArg.text runText = 3 := shared_self runText
      omega
    have hlast : readInto (fun _ => 'x')
        (readCommand (image (executable :: runArg :: [readyArg, readyFdText])))
        (executable.text.length + 1 + (254 - executable.text.length)) = 'x' :=
      readInto_beyond ((readCommand_length_le _).trans (by omega))
    rw [cmdlineIsRun_behind executable runArg _ hshort]
    refine strcmp_beyond (holds_command_take _ executable runArg _ hshort hrun) hrun ?_ ?_
    · rw [hlast]
      decide
    · rw [hlast]
      decide

theorem accepted_iff (directory readyFdText : Arg) (startTime : Nat) :
    (∀ memory,
      processIsOurs memory (daemonFiles (binaryIn directory) readyFdText startTime) startTime = true) ↔
      (binaryIn directory).text.length ≤ 250 := by
  simp only [processIsOurs_daemon]
  constructor
  · intro haccepted
    by_contra hlong
    have hanswer := haccepted fun _ => 'x'
    rw [cmdlineIsRun_stale (binaryIn directory) readyFdText (by omega), Bool.and_false] at hanswer
    cases hanswer
  · intro hshort memory
    have hfits : Fits (daemonArgv (binaryIn directory) readyFdText) := by
      have hshared : shared runArg.text runText = 3 := shared_self runText
      rw [daemonArgv, Fits, if_pos (by omega)]
      omega
    have hanswer := ((recognised_iff _).mpr hfits memory).1.mpr rfl
    rw [exeIsFreeProxy_binaryIn directory hshort, hanswer]
    rfl

/-- **The command line is recognised when what decides about it is read**, and the daemon when its path has
no more than `250` letters. -/
theorem cmdline_recognised_iff (argv : List Arg) (directory readyFdText : Arg) (startTime : Nat) :
    (Recognised argv ↔ Fits argv) ∧
    ((∀ memory,
      processIsOurs memory (daemonFiles (binaryIn directory) readyFdText startTime) startTime = true) ↔
      (binaryIn directory).text.length ≤ 250) :=
  ⟨recognised_iff argv, accepted_iff directory readyFdText startTime⟩

/-- The directory of a path of `254` letters. -/
def longDirectory : Arg where
  text := '/' :: List.replicate 242 'a'
  noNul := by
    rw [List.mem_cons, List.mem_replicate, not_or]
    exact ⟨by decide, fun hnul => absurd hnul.2 (by decide)⟩

/-- A daemon with a path of `254` letters is not recognised. -/
theorem long_path_missed :
    ¬ Recognised (daemonArgv (binaryIn longDirectory) ⟨['4'], by decide⟩) ∧
    processIsOurs (fun _ => 'x') (daemonFiles (binaryIn longDirectory) ⟨['4'], by decide⟩ 7) 7 = false := by
  have hlength : (binaryIn longDirectory).text.length = 254 := by
    rw [binaryIn, longDirectory, List.length_append, List.length_cons, List.length_replicate]
    rfl
  constructor
  · rw [daemonArgv, recognised_cut _ _ _ hlength.ge]
    exact fun hne => hne rfl
  · rw [processIsOurs_daemon, cmdlineIsRun_stale _ _ (by omega), Bool.and_false]

end FreeProxy.Cmdline
