import FreeProxy.Config.Text
import FreeProxy.Firewall.Install
import FreeProxy.System.State

/-!
# `fp_config_save`, step by step

The system calls of `fp_config_save` on `FP_CONFIG_PATH` and on its temporary file. Each may fail; a
write that fails may have written a part of its text; the process may be killed before any of them.
`rename` is atomic.

* **`save_roundTrip`**: a configuration with a port and a produced list is loaded back after a
  successful save; at every moment the file is the old one or holds the new configuration; every
  failure after the temporary file was opened has tried to unlink it.
* **`save_refines`**: seen through `fp_config_load`, a save is the call `configSave` of the system.

Out of scope: two processes with one pid, and what a crash of the machine leaves on the disk.
-/

namespace FreeProxy

open Lib

/-- The system calls of `fp_config_save`; each is answered with whether it succeeded. -/
inductive SaveOp where
  | mkdir
  /-- `open(temporary_path, O_WRONLY | O_CREAT | O_TRUNC)` -/
  | openTemp
  /-- `dprintf` -/
  | write (text : List Char)
  | fsync
  | close
  /-- `unlink(temporary_path)` -/
  | unlinkTemp
  /-- `rename(temporary_path, FP_CONFIG_PATH)` -/
  | rename
  deriving DecidableEq

/-- The two paths; `none` is a file that does not exist. -/
structure ConfigDir where
  file : Option (List Char)
  temp : Option (List Char)
  deriving DecidableEq

/-- What the caller does not control. -/
structure SaveChoice where
  ok : Bool
  /-- how much of its text a failing write leaves behind -/
  kept : Nat

/-- A program that saves. -/
abbrev SaveProg (α : Type) := Prog SaveOp (fun _ => Bool) α

namespace ConfigDir

/-- What a system call does. -/
def sem : Sem SaveOp (fun _ => Bool) SaveChoice ConfigDir
  | .openTemp, c, s => (c.ok, if c.ok then { s with temp := some [] } else s)
  | .write text, c, s =>
    (c.ok, { s with temp := s.temp.map (· ++ if c.ok then text else text.take c.kept) })
  | .unlinkTemp, c, s => (c.ok, if c.ok then { s with temp := none } else s)
  | .rename, c, s =>
    if c.ok ∧ s.temp.isSome then (true, ⟨s.temp, none⟩) else (false, s)
  | .mkdir, c, s | .fsync, c, s | .close, c, s => (c.ok, s)

/-- What a caller may see. -/
abbrev rel : Rel SaveOp (fun _ => Bool) ConfigDir := sem.rel

/-- `FP_CONFIG_PATH`. -/
def fpConfigPath : List Char := "/etc/free_proxy/config".toList

/-- `snprintf(temporary_path, sizeof(temporary_path), "%s.tmp.%ld", ..)`. -/
def temporaryPath (pid : Nat) : Option (List Char) :=
  let path := fpConfigPath ++ ".tmp.".toList ++ decimal pid
  if fpConfigPath.length + 1 + 16 ≤ path.length then none else some path

/-- The loop over the entries; a failing write does not end it. -/
def writeEntries : List Bypass → SaveProg Bool
  | [] => pure true
  | entry :: entries => do
    let written ← Prog.ask (E := SaveOp) (.write (bypassLine entry))
    let others ← writeEntries entries
    pure (written && others)

/-- `unlink(temporary_path); return -1;` -/
def discardTemp : SaveProg Int := do
  let _ ← Prog.ask (E := SaveOp) .unlinkTemp
  pure (-1)

/-- `fp_config_save` in the process `pid`. -/
def fpConfigSave (pid : Nat) (config : Config) : SaveProg Int := do
  if !(← Prog.ask (E := SaveOp) .mkdir) then pure (-1) else
  if inetAddrstrlen ≤ (inetNtop config.proxyAddr).length then pure (-1) else
  if temporaryPath pid = none then pure (-1) else do
  if !(← Prog.ask (E := SaveOp) .openTemp) then pure (-1) else do
  let proxyWritten ← Prog.ask (E := SaveOp) (.write (proxyLine config))
  let entriesWritten ← writeEntries config.bypass
  let synced ← Prog.ask (E := SaveOp) .fsync
  let closed ← Prog.ask (E := SaveOp) .close
  if !(proxyWritten && entriesWritten && synced && closed) then discardTemp else do
  if !(← Prog.ask (E := SaveOp) .rename) then discardTemp else pure 0

/-! ## What it does -/

/-- The state of the two files and the calls so far. -/
abbrev Log := ConfigDir × List (Ev SaveOp fun _ => Bool)

/-- The configuration file is the old one, or holds `c`. -/
def Atomic (c : Config) (s : ConfigDir) (x : Log) : Prop :=
  x.1.file = s.file ∨ x.1.file = some (configText c)

/-- What a save of `c` from `s` returns: `0` with the file replaced, or `-1` with the old file; then
the temporary file has been unlinked if it was opened. -/
def Saved (c : Config) (s : ConfigDir) (code : Int) (x : Log) : Prop :=
  (code = 0 ∧ x.1.file = some (configText c)) ∨
    (code = -1 ∧ x.1.file = s.file ∧ (⟨.openTemp, true⟩ ∈ x.2 →
      ∃ removed, ⟨.unlinkTemp, removed⟩ ∈ x.2 ∧ (removed = true → x.1.temp = none)))

theorem wp_discardTemp {c : Config} {s : ConfigDir} {x : Log} (h : x.1.file = s.file) :
    wp (Traced rel) (Atomic c s) discardTemp (Saved c s) x := by
  obtain ⟨t, tr⟩ := x
  have hprog : discardTemp = (Prog.ask (E := SaveOp) .unlinkTemp).bind fun _ => .ret (-1) := rfl
  rw [hprog, wp_bind, wp_ask_traced]
  refine ⟨.inl h, fun ch removed t' hcall => ?_⟩
  simp only [sem, Prod.mk.injEq] at hcall
  obtain ⟨rfl, rfl⟩ := hcall
  have hfile : (if ch.ok = true then { t with temp := none } else t : ConfigDir).file = s.file := by
    split <;> exact h
  refine ⟨.inl hfile, wp_ret.mpr ⟨.inl hfile, .inr ⟨rfl, hfile, fun _ => ?_⟩⟩⟩
  refine ⟨ch.ok, List.mem_append_right _ List.mem_cons_self, fun hok => ?_⟩
  simp only [if_pos hok]

/-- A write: the file is left alone, and a success has written the text. -/
theorem wp_write {I : Log → Prop} {c : Config} {s : ConfigDir} (hI : ∀ x : Log, Atomic c s x → I x)
    {f : Option (List Char)} (hf : f = s.file) (text written : List Char)
    (tr : List (Ev SaveOp fun _ => Bool)) :
    wp (Traced rel) I (Prog.ask (E := SaveOp) (.write text))
      (fun ok x => x.1.file = s.file ∧ ∃ t, x.1.temp = some t ∧ (ok = true → t = written ++ text))
      (⟨f, some written⟩, tr) := by
  refine wp_ask_traced.mpr ⟨hI _ (.inl hf), fun ch ok x hcall => ?_⟩
  simp only [sem, Prod.mk.injEq] at hcall
  obtain ⟨rfl, rfl⟩ := hcall
  refine ⟨hI _ (.inl hf), hf, _, rfl, fun hok => ?_⟩
  simp only [if_pos hok]

/-- A call that touches neither file. -/
theorem wp_aside {I : Log → Prop} {e : SaveOp} (he : e = .mkdir ∨ e = .fsync ∨ e = .close)
    {Q : Bool → Log → Prop} {s : ConfigDir} {tr : List (Ev SaveOp fun _ => Bool)} (hI : I (s, tr))
    (h : ∀ ok, I (s, tr ++ [⟨e, ok⟩]) ∧ Q ok (s, tr ++ [⟨e, ok⟩])) :
    wp (Traced rel) I (Prog.ask e) Q (s, tr) := by
  refine wp_ask_traced.mpr ⟨hI, fun ch ok x hcall => ?_⟩
  have hx : x = s := by
    rcases he with rfl | rfl | rfl
    · exact (congrArg Prod.snd hcall).symm
    · exact (congrArg Prod.snd hcall).symm
    · exact (congrArg Prod.snd hcall).symm
  rw [hx]
  exact h ok

theorem wp_writeEntries {I : Log → Prop} {c : Config} {s : ConfigDir}
    (hI : ∀ x : Log, Atomic c s x → I x) {f : Option (List Char)} (hf : f = s.file) :
    ∀ (entries : List Bypass) (written : List Char) (tr : List (Ev SaveOp fun _ => Bool)),
      wp (Traced rel) I (writeEntries entries)
        (fun ok x => x.1.file = s.file ∧
          ∃ t, x.1.temp = some t ∧ (ok = true → t = written ++ entries.flatMap bypassLine))
        (⟨f, some written⟩, tr)
  | [], written, tr => by
    refine wp_ret.mpr ⟨hI _ (.inl hf), hf, written, rfl, fun _ => ?_⟩
    rw [List.flatMap_nil, List.append_nil]
  | entry :: entries, written, tr => by
    have hprog : writeEntries (entry :: entries) =
        (Prog.ask (E := SaveOp) (.write (bypassLine entry))).bind fun ok =>
          (writeEntries entries).bind fun others => .ret (ok && others) := rfl
    rw [hprog, wp_bind]
    refine (wp_write hI hf (bypassLine entry) written tr).post ?_
    rintro ok ⟨⟨f', _⟩, tr'⟩ - ⟨hf', t, rfl, ht⟩
    rw [wp_bind]
    refine (wp_writeEntries hI hf' entries t tr').post ?_
    rintro others x hx ⟨hf'', u, hu, hall⟩
    refine wp_ret.mpr ⟨hx, hf'', u, hu, fun h => ?_⟩
    rw [Bool.and_eq_true] at h
    rw [hall h.2, ht h.1, List.flatMap_cons, List.append_assoc]

/-- **Every run of `fp_config_save`.** -/
theorem wp_configSave (pid : Nat) (c : Config) (s : ConfigDir) :
    wp (Traced rel) (Atomic c s) (fpConfigSave pid c) (Saved c s) (s, []) := by
  have hI : ∀ x : Log, Atomic c s x → Atomic c s x := fun _ h => h
  -- the exits before the temporary file is opened
  have hearly : ∀ tr : List (Ev SaveOp fun _ => Bool), ⟨.openTemp, true⟩ ∉ tr →
      wp (Traced rel) (Atomic c s) (.ret (-1) : SaveProg Int) (Saved c s) (s, tr) :=
    fun tr h => wp_ret.mpr ⟨.inl rfl, .inr ⟨rfl, rfl, fun hopen => absurd hopen h⟩⟩
  unfold fpConfigSave
  simp only [Prog.bind_eq, Prog.pure_eq]
  rw [wp_bind]
  refine wp_aside (.inl rfl) (.inl rfl) fun made => ⟨.inl rfl, ?_⟩
  split
  · exact hearly _ (by simp)
  split
  · exact hearly _ (by simp)
  split
  · exact hearly _ (by simp)
  rw [wp_bind, wp_ask_traced]
  refine ⟨.inl rfl, fun ch opened x hcall => ?_⟩
  simp only [sem, Prod.mk.injEq] at hcall
  obtain ⟨rfl, rfl⟩ := hcall
  by_cases hopen : ch.ok = true
  swap
  · simp only [hopen]
    exact ⟨.inl rfl, hearly _ (by simp)⟩
  simp only [hopen, if_true, Bool.not_true, Bool.false_eq_true, if_false]
  refine ⟨.inl rfl, ?_⟩
  rw [wp_bind]
  refine (wp_write hI rfl (proxyLine c) [] _).post ?_
  rintro proxyWritten ⟨⟨f, _⟩, tr⟩ - ⟨hf, t, rfl, ht⟩
  rw [wp_bind]
  refine (wp_writeEntries hI hf c.bypass t tr).post ?_
  rintro entriesWritten ⟨⟨f', _⟩, tr'⟩ - ⟨hf', u, rfl, hu⟩
  rw [wp_bind]
  refine wp_aside (.inr (.inl rfl)) (.inl hf') fun synced => ⟨.inl hf', ?_⟩
  rw [wp_bind]
  refine wp_aside (.inr (.inr rfl)) (.inl hf') fun closed => ⟨.inl hf', ?_⟩
  split
  · exact wp_discardTemp hf'
  rename_i hok
  simp only [Bool.not_eq_true', Bool.not_eq_false, Bool.and_eq_true] at hok
  -- everything has been written
  have htext : u = configText c := by rw [hu hok.1.1.2, ht hok.1.1.1]; rfl
  rw [wp_bind, wp_ask_traced]
  refine ⟨.inl hf', fun chRename renamed x hcall => ?_⟩
  by_cases hr : chRename.ok = true
  · simp only [sem, hr, Option.isSome_some, and_self, if_true, Prod.mk.injEq] at hcall
    obtain ⟨rfl, rfl⟩ := hcall
    rw [htext]
    exact ⟨.inr rfl, wp_ret.mpr ⟨.inr rfl, .inl ⟨rfl, rfl⟩⟩⟩
  · simp only [sem, hr, false_and, if_false, Prod.mk.injEq, Bool.false_eq_true] at hcall
    obtain ⟨rfl, rfl⟩ := hcall
    exact ⟨.inl hf', wp_discardTemp hf'⟩

/-- **A saved configuration is loaded back, and saving is atomic.** -/
theorem save_roundTrip {c : Config} (hport : c.proxyPort ≠ 0) (hc : c.Produced) (pid : Nat)
    (s : ConfigDir) (previous : Config) :
    (∀ s', Runs rel (fpConfigSave pid c) s 0 s' → fpConfigLoad s'.file previous = (0, c)) ∧
    ∀ tr q s', Steps rel (fpConfigSave pid c) s tr q s' →
      (fpConfigLoad s'.file previous = fpConfigLoad s.file previous ∨
        fpConfigLoad s'.file previous = (0, c)) ∧
      (q = .ret (-1) → ⟨.openTemp, true⟩ ∈ tr →
        ∃ removed, ⟨.unlinkTemp, removed⟩ ∈ tr ∧ (removed = true → s'.temp = none)) := by
  have hload := load_configText hport (produced_distinct hc) previous
  refine ⟨fun s' hrun => ?_, fun tr q s' hs => ⟨?_, fun hq hopen => ?_⟩⟩
  · obtain ⟨tr, hs⟩ := hrun
    rcases (wp_traced (wp_configSave pid c s) hs).2 0 rfl with ⟨-, hfile⟩ | ⟨hcode, -⟩
    · rw [show s'.file = some (configText c) from hfile]
      exact hload
    · exact absurd hcode (by decide)
  · rcases (wp_traced (wp_configSave pid c s) hs).1 with hfile | hfile
    · exact .inl (by rw [show s'.file = s.file from hfile])
    · exact .inr (by rw [show s'.file = some (configText c) from hfile]; exact hload)
  · subst hq
    rcases (wp_traced (wp_configSave pid c s) hs).2 (-1) rfl with ⟨hcode, -⟩ | ⟨-, -, hremoved⟩
    · exact absurd hcode (by decide)
    · exact hremoved hopen

theorem wide_produced : wideConfig.Produced := .inl ⟨"10.0.0.0/8".toList, .zero, by decide⟩

/-- No configuration has been saved yet. -/
def emptyDir : ConfigDir := ⟨none, none⟩

/-- Every call succeeds. -/
def allSucceed : List SaveChoice := List.replicate 7 ⟨true, 0⟩

/-- `wideConfig` is saved where there was no file, and loaded back. -/
theorem save_roundTrip_wide : ∃ s', Runs rel (fpConfigSave 700 wideConfig) emptyDir 0 s' ∧
    fpConfigLoad s'.file .zero = (0, wideConfig) := by
  have hruns : Runs rel (fpConfigSave 700 wideConfig) emptyDir 0
      (exec sem allSucceed (fpConfigSave 700 wideConfig) emptyDir).2 :=
    ⟨_, exec_steps allSucceed (fpConfigSave 700 wideConfig) emptyDir⟩
  exact ⟨_, hruns, (save_roundTrip (by decide) wide_produced 700 emptyDir .zero).1 _ hruns⟩

/-- **The temporary file may stay**: the proxy line cannot be written, nor the file unlinked. -/
theorem save_leaves_temp : ¬ ∀ (c : Config), c.proxyPort ≠ 0 → c.Produced → ∀ pid s tr s',
    Steps rel (fpConfigSave pid c) s tr (.ret (-1)) s' → ⟨.openTemp, true⟩ ∈ tr → s'.temp = none := by
  intro h
  let choices : List SaveChoice :=
    [⟨true, 0⟩, ⟨true, 0⟩, ⟨false, 5⟩, ⟨true, 0⟩, ⟨true, 0⟩, ⟨true, 0⟩, ⟨false, 0⟩]
  have hs : Steps rel (fpConfigSave 700 wideConfig) emptyDir _ _ _ :=
    exec_steps choices (fpConfigSave 700 wideConfig) emptyDir
  have hnone := h wideConfig (by decide) wide_produced 700 emptyDir _ _ hs (by decide)
  exact absurd hnone (by decide)

end ConfigDir

/-! ## The file as `fp_config_load` sees it -/

/-- What `fp_config_load` makes of a file. -/
def ConfigFile.ofText : Option (List Char) → ConfigFile
  | none => .absent
  | some text =>
    match fpConfigLoad (some text) .zero with
    | (0, config) => .saved config
    | _ => .rejected text

/-- `fp_config_load` starts from an empty configuration, whatever it is given. -/
theorem fpConfigLoad_some (text : List Char) (c d : Config) :
    fpConfigLoad (some text) c = fpConfigLoad (some text) d := rfl

theorem load_ofText {file : Option (List Char)} {previous config : Config} :
    (ConfigFile.ofText file).load = some config ↔ fpConfigLoad file previous = (0, config) := by
  cases file with
  | none => simp [ConfigFile.ofText, ConfigFile.load, fpConfigLoad]
  | some text =>
    rw [fpConfigLoad_some text previous .zero]
    simp only [ConfigFile.ofText]
    split
    · rename_i heq
      rw [heq]
      simp [ConfigFile.load]
    · rename_i hne
      exact iff_of_false (by simp [ConfigFile.load]) fun heq => hne _ heq

/-- **A save is one call**: through `fp_config_load`, the steps of `fp_config_save` are the call
`configSave` of the system. -/
theorem save_refines {c : Config} (hport : c.proxyPort ≠ 0) (hc : c.Produced) {pid : Nat}
    {s s' : ConfigDir} {code : Int} (h : Runs ConfigDir.rel (ConfigDir.fpConfigSave pid c) s code s')
    {t : Sys} (ht : t.file = .ofText s.file) :
    sysRel (.configSave c) t (decide (code = 0)) { t with file := .ofText s'.file } := by
  obtain ⟨tr, hs⟩ := h
  have hload := load_configText hport (produced_distinct hc) .zero
  rcases (wp_traced (ConfigDir.wp_configSave pid c s) hs).2 code rfl with ⟨rfl, hfile⟩ | ⟨rfl, hfile, -⟩
  · refine ⟨⟨true, true, 0, 0⟩, ?_⟩
    rw [show s'.file = some (configText c) from hfile]
    simp [sys, ConfigFile.ofText, hload]
  · refine ⟨⟨false, true, 0, 0⟩, ?_⟩
    rw [show s'.file = s.file from hfile, ← ht]
    simp [sys]

end FreeProxy
