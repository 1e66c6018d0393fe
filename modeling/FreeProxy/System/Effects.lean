import FreeProxy.System.State

/-!
# What the calls do to the chain and to the file

The chain `FPROXY_OUT` and the configuration file as folds over the calls of all processes, in the order in
which they are made. The commands that create, flush or delete the chain leave nothing of what it held
(`resetsChain`), and the appends add to it (`appendsRule`); nothing else touches it.

Out of scope: the jumps that are taken away, the other files and the processes.

Headlines: `sysRel_chain`, `sysRel_jump`, `sysRel_file`.
-/

namespace FreeProxy

open Lib

/-- A call and its answer. -/
abbrev Event := Ev Op Resp

/-- What a command that is executed makes of the chain. -/
def Cmd.chainEffect (l : Option (List Rule)) : Cmd → Option (List Rule)
  | .newChain | .flushChain => some []
  | .deleteChain => none
  | .rule .append spec => l.bind fun l => spec.parse.map fun r => l ++ [r]
  | _ => l

/-- What a call makes of the chain. -/
def chainEffect (l : Option (List Rule)) (ev : Event) : Option (List Rule) :=
  match ev with
  | ⟨.ipt e, r⟩ => bif r then e.chainEffect l else l
  | _ => l

/-- What the chain holds afterwards does not depend on what it held. -/
def resetsChain (ev : Event) : Bool :=
  match ev with
  | ⟨.ipt .newChain, r⟩ | ⟨.ipt .flushChain, r⟩ | ⟨.ipt .deleteChain, r⟩ => r
  | _ => false

/-- The call appends a rule. -/
def appendsRule (ev : Event) : Bool :=
  match ev with
  | ⟨.ipt (.rule .append _), r⟩ => r
  | _ => false

/-- The call inserts the jump. -/
def insertsJump (ev : Event) : Bool :=
  match ev with
  | ⟨.ipt .insertJump, r⟩ => r
  | _ => false

/-- What a call makes of the configuration file. -/
def fileEffect (f : ConfigFile) (ev : Event) : ConfigFile :=
  match ev with
  | ⟨.configSave c, r⟩ => bif r then .saved c else f
  | _ => f

theorem act_chainEffect {e : Cmd} {t t' : Table} (h : act e t = some t') :
    t'.chain = e.chainEffect t.chain := by
  cases e with
  | listChain => obtain ⟨-, rfl⟩ := act_listChain.mp h; rfl
  | newChain => obtain ⟨-, rfl⟩ := act_newChain.mp h; rfl
  | flushChain => obtain ⟨-, rfl⟩ := act_flushChain.mp h; rfl
  | deleteChain => obtain ⟨-, _, rfl⟩ := act_deleteChain.mp h; rfl
  | checkJump => obtain ⟨-, rfl⟩ := act_checkJump.mp h; rfl
  | insertJump => obtain ⟨_, rfl⟩ := act_insertJump.mp h; rfl
  | deleteJump => obtain ⟨-, rfl⟩ := act_deleteJump.mp h; rfl
  | rule op spec =>
    cases op with
    | append =>
      obtain ⟨l, r, hl, hr, rfl⟩ := act_append.mp h
      simp [Cmd.chainEffect, hl, hr]
    | check => obtain ⟨_, _, -, -, -, rfl⟩ := act_check.mp h; rfl

/-- Only an iptables command changes the table. -/
theorem sysRel_table {e : Op} {s s' : Sys} {r : Resp e} (he : ∀ c, e ≠ .ipt c) (h : sysRel e s r s') :
    s'.table = s.table := by
  obtain ⟨c, hc⟩ := h
  have hother : (sys e c s).2.table = s.table → s'.table = s.table := by
    intro ht
    rwa [hc] at ht
  cases e with
  | ipt e => exact absurd rfl (he e)
  | configSave | writePid | removePid | statsCreate | statsUnlink | sigkill | listen | closeListener
    | spawn | exit =>
    refine hother ?_
    simp only [sys]
    repeat' split
    all_goals rfl
  | _ => exact hother rfl

/-- **The chain is a fold over the calls.** -/
theorem sysRel_chain (e : Op) (s : Sys) (r : Resp e) (s' : Sys) (h : sysRel e s r s') :
    s'.table.chain = chainEffect s.table.chain ⟨e, r⟩ := by
  cases e with
  | ipt e =>
    rcases (ipt_embeds e s r s' h).1 with ⟨rfl, hact⟩ | ⟨rfl, ht⟩
    · exact act_chainEffect hact
    · exact congrArg Table.chain ht
  | _ => exact congrArg Table.chain (sysRel_table (by simp) h)

theorem act_insertsJump {e : Cmd} {t t' : Table} (h : act e t = some t') (he : e ≠ .insertJump)
    (hj : .jump ∈ t'.output) : .jump ∈ t.output := by
  by_cases hremoves : e.Removes
  · exact (act_removes hremoves h).1.subset hj
  cases e with
  | newChain => obtain ⟨-, rfl⟩ := act_newChain.mp h; exact hj
  | insertJump => exact absurd rfl he
  | rule op spec =>
    cases op with
    | append => obtain ⟨_, _, -, -, rfl⟩ := act_append.mp h; exact hj
    | check => exact absurd trivial hremoves
  | _ => exact absurd trivial hremoves

/-- A jump that was not there before has just been inserted. -/
theorem sysRel_jump {e : Op} {s s' : Sys} {r : Resp e} (h : sysRel e s r s')
    (hj : .jump ∈ s'.table.output) : .jump ∈ s.table.output ∨ insertsJump ⟨e, r⟩ = true := by
  cases e with
  | ipt e =>
    rcases (ipt_embeds e s r s' h).1 with ⟨rfl, hact⟩ | ⟨rfl, ht⟩
    · by_cases he : e = .insertJump
      · exact .inr (by rw [he]; rfl)
      · exact .inl (act_insertsJump hact he hj)
    · have htable : s'.table = s.table := ht
      exact .inl (htable ▸ hj)
  | _ => exact .inl (sysRel_table (by simp) h ▸ hj)

theorem sysRel_file (e : Op) (s : Sys) (r : Resp e) (s' : Sys) (h : sysRel e s r s') :
    s'.file = fileEffect s.file ⟨e, r⟩ := by
  obtain ⟨c, hc⟩ := h
  have hother : (sys e c s).2.file = s.file → s'.file = s.file := by
    intro hf
    rwa [hc] at hf
  cases e with
  | configSave config =>
    simp only [sys] at hc
    split at hc
    · rw [Prod.mk.injEq] at hc
      rw [← hc.1, ← hc.2]
      rfl
    · rw [Prod.mk.injEq] at hc
      rw [← hc.1, ← hc.2]
      rfl
  | writePid | removePid | statsCreate | statsUnlink | sigkill | listen | closeListener | spawn
    | exit =>
    refine hother ?_
    simp only [sys]
    repeat' split
    all_goals rfl
  | _ => exact hother rfl

theorem chainEffect_resets (ev : Event) (l l' : Option (List Rule)) (h : resetsChain ev = true) :
    chainEffect l ev = chainEffect l' ev := by
  obtain ⟨e, r⟩ := ev
  cases e with
  | ipt e =>
    cases e with
    | newChain | flushChain | deleteChain =>
      obtain rfl : r = true := h
      rfl
    | _ => simp [resetsChain] at h
  | _ => simp [resetsChain] at h

theorem chainEffect_quiet (ev : Event) (l : Option (List Rule)) (hr : resetsChain ev = false)
    (ha : appendsRule ev = false) : chainEffect l ev = l := by
  obtain ⟨e, r⟩ := ev
  cases e with
  | ipt e =>
    cases e with
    | newChain | flushChain | deleteChain =>
      obtain rfl : r = false := hr
      rfl
    | rule op spec =>
      cases op with
      | append =>
        obtain rfl : r = false := ha
        rfl
      | check => cases r <;> rfl
    | _ => cases r <;> rfl
  | _ => rfl

end FreeProxy
