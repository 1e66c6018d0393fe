import FreeProxy.Lib.Transfer

/-!
# Programs that keep to a protocol

A protocol has phases: `advance ph e r` is the phase after the call `e` in the phase `ph`, answered
by `r`, and `none` when `e` is not allowed there. `Follows advance p Q ph`: whatever `p` is answered,
it makes allowed calls only, beginning in `ph`, and where it ends with `a` the phase satisfies `Q a`.

A process of a larger system is then known by its phase: `Follows.step` is all that its next call
can do to it. The rules take a program apart (`follows_ret`, `follows_call`, `follows_bind`,
`follows_loop`, `follows_hoist`, `Follows.map`, `follows_embed`, `follows_calls`, `follows_writeAll`,
`follows_readAll`).

A protocol may have a last call (`closing`): nothing is called behind it.

`phaseAfter` are the phases of a list of calls: `Follows.trace` says that the calls of every run, in any
environment, are allowed one after the other.
-/

namespace FreeProxy.Lib

variable {E : Type} {R : E → Type} {Ph : Type} {α β : Type}

/-- The phase as a state that the calls move; `none` once a call was not allowed. -/
def phaseRel (advance : Ph → (e : E) → R e → Option Ph) : Rel E R (Option Ph) :=
  fun e o r o' => o' = o.bind fun ph => advance ph e r

/-- `p` keeps to the protocol from the phase `ph`, and ends in a phase with `Q`. -/
def Follows (advance : Ph → (e : E) → R e → Option Ph) (p : Prog E R α) (Q : α → Ph → Prop)
    (ph : Ph) : Prop :=
  wp (phaseRel advance) (fun o => o.isSome) p (fun a o => ∀ ph ∈ o, Q a ph) (some ph)

variable {advance : Ph → (e : E) → R e → Option Ph} {Q : α → Ph → Prop} {ph : Ph}

theorem follows_ret {a : α} : Follows advance (.ret a : Prog E R α) Q ph ↔ Q a ph := by
  unfold Follows
  rw [wp_ret]
  simp

/-- What a process does with its next call. -/
theorem follows_next {p : Prog E R α} {e : E} {k : R e → Prog E R α} (hp : p.next = .call e k) :
    Follows advance p Q ph ↔ ∀ r, ∃ ph', advance ph e r = some ph' ∧ Follows advance (k r) Q ph' := by
  unfold Follows
  rw [wp_next hp]
  constructor
  · rintro ⟨-, h⟩ r
    have hr := h r _ rfl
    cases hadvance : advance ph e r with
    | none =>
      rw [Option.bind_some, hadvance] at hr
      exact absurd hr.now (by simp)
    | some ph' =>
      rw [Option.bind_some, hadvance] at hr
      exact ⟨ph', rfl, hr⟩
  · refine fun h => ⟨rfl, ?_⟩
    rintro r _ rfl
    obtain ⟨ph', hadvance, hf⟩ := h r
    rw [Option.bind_some, hadvance]
    exact hf

theorem follows_call {e : E} {k : R e → Prog E R α} : Follows advance (.call e k) Q ph ↔
    ∀ r, ∃ ph', advance ph e r = some ph' ∧ Follows advance (k r) Q ph' := follows_next rfl

theorem follows_ask {e : E} {Q : R e → Ph → Prop} : Follows advance (Prog.ask e) Q ph ↔
    ∀ r, ∃ ph', advance ph e r = some ph' ∧ Q r ph' := by
  simp only [Prog.ask, follows_call, follows_ret]

/-- One call, and what follows it. -/
theorem follows_askThen {e : E} {k : R e → Prog E R α} : Follows advance ((Prog.ask e).bind k) Q ph ↔
    ∀ r, ∃ ph', advance ph e r = some ph' ∧ Follows advance (k r) Q ph' := follows_next rfl

theorem follows_bind {p : Prog E R α} {f : α → Prog E R β} {Q : β → Ph → Prop} :
    Follows advance (p.bind f) Q ph ↔
      Follows advance p (fun a ph => Follows advance (f a) Q ph) ph := by
  unfold Follows
  rw [wp_bind]
  constructor
  · intro h
    refine h.mono (fun _ h => h) ?_
    rintro a o hf ph' rfl
    exact hf
  · intro h
    refine h.post fun a o ho hf => ?_
    obtain ⟨ph', rfl⟩ := Option.isSome_iff_exists.mp ho
    exact hf ph' rfl

theorem Follows.mono {Q' : α → Ph → Prop} {p : Prog E R α} (h : Follows advance p Q ph)
    (hQ : ∀ a ph, Q a ph → Q' a ph) : Follows advance p Q' ph :=
  wp.mono h (fun _ h => h) fun a _ ho ph' hph => hQ a ph' (ho ph' hph)

/-- **The loop rule.** `J` holds of the phase whenever the loop's call is made. -/
theorem follows_loop {e : E} {body : R e → Prog E R (Option β)} {k : β → Prog E R α} {J : Ph → Prop}
    {B : β → Ph → Prop}
    (hbody : ∀ ph, J ph → ∀ r, ∃ ph', advance ph e r = some ph' ∧
      Follows advance (body r) (fun o ph => match o with | none => J ph | some b => B b ph) ph')
    (hk : ∀ b ph, B b ph → Follows advance (k b) Q ph) (hJ : J ph) :
    Follows advance (.loop e body k) Q ph := by
  refine wp_loop (J := fun o => ∃ ph, o = some ph ∧ J ph)
    (B := fun b o => ∃ ph, o = some ph ∧ B b ph) ?_ ?_ ?_ ⟨ph, rfl, hJ⟩
  · rintro _ ⟨ph, rfl, -⟩
    rfl
  · rintro _ ⟨ph, rfl, h⟩ r _ rfl
    obtain ⟨ph', hadvance, hf⟩ := hbody ph h r
    rw [Option.bind_some, hadvance]
    refine wp.post hf fun o s hs ho => ?_
    obtain ⟨ph'', rfl⟩ := Option.isSome_iff_exists.mp hs
    cases o with
    | none => exact ⟨ph'', rfl, ho ph'' rfl⟩
    | some b => exact ⟨ph'', rfl, ho ph'' rfl⟩
  · rintro b _ ⟨ph, rfl, h⟩
    exact hk b ph h

/-- A program over fewer calls keeps to the protocol as it is on these calls. -/
theorem follows_hoist {E' : Type} {R' : E' → Type} {i : E → E'}
    {advance : Ph → (e : E) → R' (i e) → Option Ph} {advance' : Ph → (e : E') → R' e → Option Ph}
    (hi : ∀ ph e r, advance' ph (i e) r = advance ph e r)
    {p : Prog E (fun e => R' (i e)) α} {Q : α → Ph → Prop} {ph : Ph} (h : Follows advance p Q ph) :
    Follows advance' (hoist i p) Q ph := by
  let l : Lens (Option Ph) (Option Ph) := ⟨id, fun _ t => t, fun _ _ => rfl, fun _ => rfl, fun _ _ _ => rfl⟩
  have hembeds : Embeds i (phaseRel advance) (phaseRel advance') l := by
    rintro e s r _ rfl
    refine ⟨?_, rfl⟩
    simp only [phaseRel, hi, l, id]
  exact (wp_hoist (l := l) hembeds h).mono (fun _ h => h.1) fun _ _ h => h.1

/-- A program that keeps to a protocol keeps to every other one that allows as much. -/
theorem Follows.map {Ph' : Type} (f : Ph → Ph') {advance' : Ph' → (e : E) → R e → Option Ph'}
    (hf : ∀ ph e r ph', advance ph e r = some ph' → advance' (f ph) e r = some (f ph')) {p : Prog E R α}
    (h : Follows advance p Q ph) : Follows advance' p (fun a ph' => ∃ ph, ph' = f ph ∧ Q a ph) (f ph) := by
  induction p generalizing ph with
  | ret a => exact follows_ret.mpr ⟨ph, rfl, follows_ret.mp h⟩
  | call e k ih =>
    refine follows_call.mpr fun r => ?_
    obtain ⟨ph', hadvance, hnext⟩ := follows_call.mp h r
    exact ⟨f ph', hf _ _ _ _ hadvance, ih r hnext⟩
  | loop e body k ihbody ihk =>
    refine follows_loop (J := fun ph' => ∃ ph, ph' = f ph ∧ Follows advance (.loop e body k) Q ph)
      (B := fun b ph' => ∃ ph, ph' = f ph ∧ Follows advance (k b) Q ph) ?_ ?_ ⟨ph, rfl, h⟩
    · rintro _ ⟨ph, rfl, hloop⟩ r
      obtain ⟨ph', hadvance, hround⟩ := (follows_next rfl).mp hloop r
      refine ⟨f ph', hf _ _ _ _ hadvance, (ihbody r (follows_bind.mp hround)).mono fun o _ ho => ?_⟩
      cases o with
      | none => exact ho
      | some b => exact ho
    · rintro b _ ⟨ph, rfl, hnext⟩
      exact ihk b hnext

/-- A program over fewer calls, where its phase is a part of the phase. -/
theorem follows_embed {Ph' E' : Type} {R' : E' → Type} {i : E → E'} (f : Ph → Ph')
    {advance : Ph → (e : E) → R' (i e) → Option Ph} {advance' : Ph' → (e : E') → R' e → Option Ph'}
    (hf : ∀ ph e r ph', advance ph e r = some ph' → advance' (f ph) (i e) r = some (f ph'))
    {p : Prog E (fun e => R' (i e)) α} {Q : α → Ph → Prop} {ph : Ph} (h : Follows advance p Q ph) :
    Follows advance' (hoist i p) (fun a ph' => ∃ ph, ph' = f ph ∧ Q a ph) (f ph) :=
  follows_hoist (fun _ _ _ => rfl) (h.map f hf)

/-- A program whose calls do not move the phase. -/
theorem follows_calls {P : E → Prop} {p : Prog E R α} (hp : p.Calls P)
    (hstay : ∀ e r, P e → advance ph e r = some ph) : Follows advance p (fun _ ph' => ph' = ph) ph := by
  induction p with
  | ret a => exact follows_ret.mpr rfl
  | call e k ih => exact follows_call.mpr fun r => ⟨ph, hstay e r hp.1, ih r (hp.2 r)⟩
  | loop e body k ihbody ihk =>
    refine follows_loop (J := fun ph' => ph' = ph) (B := fun _ ph' => ph' = ph) ?_ ?_ rfl
    · rintro _ rfl r
      refine ⟨_, hstay e r hp.1, (ihbody r (hp.2.1 r)).mono fun o _ hph => ?_⟩
      cases o with
      | none => exact hph
      | some b => exact hph
    · rintro b _ rfl
      exact ihk b (hp.2.2 b)

/-! ## A last call -/

/-- The phase of a protocol that a last call closes. -/
inductive Closing (Ph : Type) where
  | going (ph : Ph)
  | closed
  deriving DecidableEq

section Closing

variable [DecidableEq Ph] {last : E → Bool} {idle : Ph}

/-- `advance`, until a last call is made; it is made in the phase `idle`, and nothing is called behind it. -/
def closing (advance : Ph → (e : E) → R e → Option Ph) (last : E → Bool) (idle : Ph) :
    Closing Ph → (e : E) → R e → Option (Closing Ph)
  | .going ph, e, r =>
    if last e then if ph = idle then some .closed else none else (advance ph e r).map .going
  | .closed, _, _ => none

theorem closing_going {e : E} {r : R e} {ph' : Ph} (he : last e = false) (h : advance ph e r = some ph') :
    closing advance last idle (.going ph) e r = some (.going ph') := by
  simp [closing, he, h]

theorem closing_last {e : E} {r : R e} (he : last e = true) :
    closing advance last idle (.going idle) e r = some .closed := by
  simp [closing, he]

/-- What is done before the last call, and what follows it. -/
theorem follows_going {p : Prog E R α} {k : α → Prog E R β} {P : α → Ph → Prop} {Q : β → Closing Ph → Prop}
    (hlast : ∀ ph e r, last e = true → advance ph e r = none) (hp : Follows advance p P ph)
    (hk : ∀ a ph, P a ph → Follows (closing advance last idle) (k a) Q (.going ph)) :
    Follows (closing advance last idle) (p.bind k) Q (.going ph) := by
  refine follows_bind.mpr ((hp.map Closing.going fun ph e r ph' h => closing_going ?_ h).mono ?_)
  · by_contra hlast'
    rw [hlast ph e r (by simpa using hlast')] at h
    simp at h
  · rintro a _ ⟨ph, rfl, hP⟩
    exact hk a ph hP

/-- The last call, and what follows it. -/
theorem follows_last {e : E} {k : R e → Prog E R α} {Q : α → Closing Ph → Prop} (he : last e = true)
    (hk : ∀ r, Follows (closing advance last idle) (k r) Q .closed) :
    Follows (closing advance last idle) ((Prog.ask e).bind k) Q (.going idle) :=
  follows_askThen.mpr fun r => ⟨.closed, closing_last he, hk r⟩

end Closing

/-! ## Transfers -/

/-- There is nothing more to transfer: an error, or the empty transfer. -/
def Transfer.Over {γ : Type} (empty : γ) : Transfer γ → Prop
  | .failed errno => errno ≠ eintr
  | .done a => a = empty

instance {γ : Type} [DecidableEq γ] (empty : γ) (t : Transfer γ) : Decidable (t.Over empty) := by
  cases t <;> unfold Transfer.Over <;> infer_instance

/-- Everything that was asked for was received. -/
def ReadAll.succeeded {γ : Type} : ReadAll γ → Bool
  | .complete _ => true
  | .ended | .failed => false

section Transfers

variable {γ : Type} {up down : Ph}

/-- `writeAll` leaves the phase `up` only when it fails. -/
theorem follows_writeAll {send : List γ → E} {answer : ∀ items, R (send items) → Transfer Nat}
    (hsend : ∀ items r, advance up (send items) r =
      some (if (answer items r).Over 0 then down else up)) (items : List γ) :
    Follows advance (writeAll send answer items) (fun ok ph => ph = if ok then up else down) up := by
  refine (wp_writeAll (J := fun _ o => o = some up) (F := fun o => o = some down) ?_ ?_ ?_ items rfl).mono
    (fun _ h => h) ?_
  · rintro _ _ rfl
    rfl
  · rintro _ rfl
    rfl
  · rintro rest _ rfl - r _ rfl
    rw [Option.bind_some, hsend]
    cases answer rest r with
    | failed errno => by_cases h : errno = eintr <;> simp [Transfer.Over, h]
    | done written => by_cases h : written = 0 <;> simp [Transfer.Over, h]
  · rintro ok o ho ph rfl
    cases ok with
    | true => exact Option.some.inj ho
    | false => exact Option.some.inj ho

/-- `readAll` leaves the phase `up` only when it fails. -/
theorem follows_readAll [DecidableEq γ] {recv : Nat → Nat → E}
    {answer : ∀ offset room, R (recv offset room) → Transfer (List γ)}
    (hrecv : ∀ offset room r, advance up (recv offset room) r =
      some (if (answer offset room r).Over [] then down else up)) (got : List γ) (length : Nat) :
    Follows advance (readAll recv answer got length)
      (fun r ph => ph = if r.succeeded then up else down) up := by
  refine (wp_readAll (J := fun _ _ o => o = some up)
    (Q := fun r o => o = some (if r.succeeded then up else down)) ?_ ?_ ?_ ?_ got length rfl).mono
    (fun _ h => h) ?_
  · rintro _ _ _ rfl
    rfl
  · rintro _ _ rfl
    rfl
  · rintro got length _ rfl - r _ rfl
    rw [Option.bind_some, hrecv]
    cases answer got.length length r with
    | failed errno => by_cases h : errno = eintr <;> simp [Transfer.Over, ReadAll.succeeded, h]
    | done received => by_cases h : received = [] <;> simp [Transfer.Over, ReadAll.succeeded, h]
  · rintro got _ rfl
    rfl
  · rintro r o ho ph rfl
    exact Option.some.inj ho

end Transfers

/-! ## The calls of a run -/

/-- The phase after calls, as long as each was allowed. -/
def phaseAfter (advance : Ph → (e : E) → R e → Option Ph) : Ph → List (Ev E R) → Option Ph
  | ph, [] => some ph
  | ph, ev :: tr => (advance ph ev.1 ev.2).bind fun ph' => phaseAfter advance ph' tr

/-- **In any environment, every run makes allowed calls only**, and one that ends, ends in a phase with
`Q`. -/
theorem Follows.trace {S : Type} {rel : Rel E R S} {p q : Prog E R α} {s s' : S} {tr : List (Ev E R)}
    (h : Follows advance p Q ph) (hs : Steps rel p s tr q s') :
    ∃ ph', phaseAfter advance ph tr = some ph' ∧ ∀ a, q.result = some a → Q a ph' := by
  induction hs generalizing ph with
  | refl p s =>
    refine ⟨ph, rfl, fun a ha => ?_⟩
    rw [Prog.result_eq_some.mp ha] at h
    exact follows_ret.mp h
  | step hp _ _ ih =>
    obtain ⟨ph', hadvance, hnext⟩ := (follows_next hp).mp h _
    obtain ⟨ph'', htrace, hend⟩ := ih hnext
    exact ⟨ph'', by rw [phaseAfter, hadvance, Option.bind_some, htrace], hend⟩

end FreeProxy.Lib
