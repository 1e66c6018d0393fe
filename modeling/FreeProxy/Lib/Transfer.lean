import FreeProxy.Lib.Terminates

/-!
# Transfers in pieces

`send` and `recv` transfer as much as they like, and may be interrupted. `writeAll` and `readAll` are
the loops that call them until everything is transferred: an interrupted call is made again, an error
or an empty transfer ends the loop. The calls and their answers are parameters.

The rules carry an invariant `J` of what is still to be sent (`wp_writeAll`) or of what has been
received (`wp_readAll`) from call to call. When only finitely many calls are interrupted, both loops
come to an end (`terminates_writeAll`, `terminates_readAll`).
-/

namespace FreeProxy.Lib

/-- A byte on the wire. -/
abbrev Byte := BitVec 8

/-- What `send` and `recv` answer: `-1` with `errno`, or what was transferred. -/
inductive Transfer (α : Type) where
  | failed (errno : Int)
  | done (a : α)
  deriving DecidableEq

/-- `EINTR`. -/
def eintr : Int := 4

/-- The call is made again when it was interrupted. -/
def Transfer.settled {α : Type} : Transfer α → Option (Transfer α)
  | .failed errno => if errno = eintr then none else some (.failed errno)
  | .done a => some (.done a)

/-- How a loop of `recv` ends. -/
inductive ReadAll (β : Type) where
  | complete (got : List β)
  /-- `recv` has answered `0` -/
  | ended
  | failed
  deriving DecidableEq

variable {E : Type} {R : E → Type} {S : Type} {β : Type}

/-- Send all of `items`; `false` when a call fails or sends nothing. -/
def writeAll (send : List β → E) (answer : ∀ items, R (send items) → Transfer Nat)
    (items : List β) : Prog E R Bool :=
  if _h : items = [] then .ret true
  else .loop (send items) (fun r => .ret (answer items r).settled) fun
    | .failed _ => .ret false
    | .done written => if written = 0 then .ret false else writeAll send answer (items.drop written)
termination_by items.length
decreasing_by
  have hpos := List.length_pos_of_ne_nil _h
  rw [List.length_drop]
  omega

/-- Receive `length` more items after `got`; `recv` is given the offset and the room behind it. -/
def readAll (recv : Nat → Nat → E)
    (answer : ∀ offset room, R (recv offset room) → Transfer (List β)) (got : List β) (length : Nat) :
    Prog E R (ReadAll β) :=
  if _h : length = 0 then .ret (.complete got)
  else .loop (recv got.length length) (fun r => .ret (answer got.length length r).settled) fun
    | .failed _ => .ret .failed
    | .done received =>
      if received = [] then .ret .ended
      else readAll recv answer (got ++ received) (length - received.length)
termination_by length
decreasing_by
  have hpos := List.length_pos_of_ne_nil ‹received ≠ []›
  omega

section Rules

variable {rel : Rel E R S} {I : S → Prop} {α γ : Type}

theorem settled_eq_none {t : Transfer γ} : t.settled = none ↔ t = .failed eintr := by
  cases t with
  | failed errno => simp [Transfer.settled]
  | done a => simp [Transfer.settled]

theorem settled_eq_some {t t' : Transfer γ} : t.settled = some t' ↔ t ≠ .failed eintr ∧ t' = t := by
  cases t with
  | failed errno => by_cases h : errno = eintr <;> simp [Transfer.settled, h, eq_comm]
  | done a => simp [Transfer.settled, eq_comm]

/-- One call that is made again while it is interrupted, and what follows it. -/
theorem wp_transfer {e : E} {answer : R e → Transfer γ} {k : Transfer γ → Prog E R α} {J : S → Prop}
    {Q : α → S → Prop} (hI : ∀ s, J s → I s)
    (hagain : ∀ s, J s → ∀ r s₁, rel e s r s₁ → answer r = .failed eintr → J s₁)
    (hk : ∀ s, J s → ∀ r s₁, rel e s r s₁ → answer r ≠ .failed eintr → wp rel I (k (answer r)) Q s₁)
    {s : S} (hs : J s) : wp rel I (.loop e (fun r => .ret (answer r).settled) k) Q s := by
  refine wp_loop (J := J) (B := fun t s => wp rel I (k t) Q s) hI ?_ (fun _ _ h => h) hs
  intro s hs r s₁ hr
  by_cases hintr : answer r = .failed eintr
  · have hJ := hagain s hs r s₁ hr hintr
    rw [settled_eq_none.mpr hintr]
    exact wp_ret.mpr ⟨hI _ hJ, hJ⟩
  · have hrest := hk s hs r s₁ hr hintr
    rw [settled_eq_some.mpr ⟨hintr, rfl⟩]
    exact wp_ret.mpr ⟨hrest.now, hrest⟩

/-- **The rule of `writeAll`.** `J rest` holds when `rest` is still to be sent, `F` when a call has
failed or sent nothing. -/
theorem wp_writeAll {send : List β → E} {answer : ∀ items, R (send items) → Transfer Nat}
    {J : List β → S → Prop} {F : S → Prop} (hI : ∀ rest s, J rest s → I s) (hF : ∀ s, F s → I s)
    (hstep : ∀ rest s, J rest s → rest ≠ [] → ∀ r s₁, rel (send rest) s r s₁ →
      match answer rest r with
      | .failed errno => if errno = eintr then J rest s₁ else F s₁
      | .done written => if written = 0 then F s₁ else J (rest.drop written) s₁)
    (items : List β) {s : S} (hs : J items s) :
    wp rel I (writeAll send answer items) (fun ok s => if ok then J [] s else F s) s := by
  induction hlen : items.length using Nat.strongRecOn generalizing items s with
  | ind n ih =>
    subst hlen
    rw [writeAll]
    by_cases hitems : items = []
    · subst hitems
      exact wp_ret.mpr ⟨hI _ _ hs, hs⟩
    rw [dif_neg hitems]
    refine wp_transfer (hI items) ?_ ?_ hs
    · intro s hs r s₁ hr hintr
      have h := hstep items s hs hitems r s₁ hr
      rw [hintr] at h
      exact h
    · intro s hs r s₁ hr hintr
      have h := hstep items s hs hitems r s₁ hr
      cases hanswer : answer items r with
      | failed errno =>
        rw [hanswer] at h hintr
        have hne : errno ≠ eintr := fun heq => hintr (by rw [heq])
        simp only [if_neg hne] at h
        exact wp_ret.mpr ⟨hF _ h, h⟩
      | done written =>
        rw [hanswer] at h
        by_cases hzero : written = 0
        · simp only [if_pos hzero] at h ⊢
          exact wp_ret.mpr ⟨hF _ h, h⟩
        · simp only [if_neg hzero] at h ⊢
          refine ih _ ?_ _ h rfl
          have hpos := List.length_pos_of_ne_nil hitems
          rw [List.length_drop]
          omega

/-- **The rule of `readAll`.** `J got length` holds when `length` items are still to come after `got`. -/
theorem wp_readAll {recv : Nat → Nat → E}
    {answer : ∀ offset room, R (recv offset room) → Transfer (List β)}
    {J : List β → Nat → S → Prop} {Q : ReadAll β → S → Prop} (hI : ∀ got length s, J got length s → I s)
    (hQ : ∀ end' s, Q end' s → I s)
    (hstep : ∀ got length s, J got length s → 0 < length → ∀ r s₁,
      rel (recv got.length length) s r s₁ →
      match answer got.length length r with
      | .failed errno => if errno = eintr then J got length s₁ else Q .failed s₁
      | .done received =>
        if received = [] then Q .ended s₁ else J (got ++ received) (length - received.length) s₁)
    (hdone : ∀ got s, J got 0 s → Q (.complete got) s) (got : List β) (length : Nat) {s : S}
    (hs : J got length s) : wp rel I (readAll recv answer got length) Q s := by
  induction length using Nat.strongRecOn generalizing got s with
  | ind length ih =>
    rw [readAll]
    by_cases hlength : length = 0
    · subst hlength
      exact wp_ret.mpr ⟨hI _ _ _ hs, hdone got s hs⟩
    rw [dif_neg hlength]
    have hpos : 0 < length := Nat.pos_of_ne_zero hlength
    refine wp_transfer (hI got length) ?_ ?_ hs
    · intro s hs r s₁ hr hintr
      have h := hstep got length s hs hpos r s₁ hr
      rw [hintr] at h
      exact h
    · intro s hs r s₁ hr hintr
      have h := hstep got length s hs hpos r s₁ hr
      cases hanswer : answer got.length length r with
      | failed errno =>
        rw [hanswer] at h hintr
        have hne : errno ≠ eintr := fun heq => hintr (by rw [heq])
        simp only [if_neg hne] at h
        exact wp_ret.mpr ⟨hQ _ _ h, h⟩
      | done received =>
        rw [hanswer] at h
        by_cases hempty : received = []
        · simp only [if_pos hempty] at h ⊢
          exact wp_ret.mpr ⟨hQ _ _ h, h⟩
        · simp only [if_neg hempty] at h ⊢
          have hreceived := List.length_pos_of_ne_nil hempty
          exact ih _ (by omega) _ h

end Rules

/-! ## Termination -/

section Termination

variable {rel : Rel E R S} {α γ : Type}

/-- A call that can be interrupted `μ s` times at most. -/
theorem terminates_transfer {e : E} {answer : R e → Transfer γ} {k : Transfer γ → Prog E R α}
    (μ : S → Nat) (hμ : ∀ s r s₁, rel e s r s₁ → answer r = .failed eintr → μ s₁ < μ s)
    (hk : ∀ t s, Terminates rel (k t) s) (s : S) :
    Terminates rel (.loop e (fun r => .ret (answer r).settled) k) s := by
  induction hs : μ s using Nat.strongRecOn generalizing s with
  | ind n ih =>
    subst hs
    refine .call rfl fun r s₁ hr => ?_
    rw [Prog.ret_bind]
    by_cases hintr : answer r = .failed eintr
    · rw [settled_eq_none.mpr hintr]
      exact ih _ (hμ s r s₁ hr hintr) s₁ rfl
    · rw [settled_eq_some.mpr ⟨hintr, rfl⟩]
      exact hk _ s₁

theorem terminates_writeAll {send : List β → E} {answer : ∀ items, R (send items) → Transfer Nat}
    (μ : S → Nat)
    (hμ : ∀ items s r s₁, rel (send items) s r s₁ → answer items r = .failed eintr → μ s₁ < μ s)
    (items : List β) (s : S) : Terminates rel (writeAll send answer items) s := by
  induction hlen : items.length using Nat.strongRecOn generalizing items s with
  | ind n ih =>
    subst hlen
    rw [writeAll]
    by_cases hitems : items = []
    · rw [dif_pos hitems]
      exact .ret _ _
    rw [dif_neg hitems]
    refine terminates_transfer μ (hμ items) (fun t s => ?_) s
    cases t with
    | failed errno => exact .ret _ _
    | done written =>
      by_cases hzero : written = 0
      · simp only [if_pos hzero]
        exact .ret _ _
      · simp only [if_neg hzero]
        have hpos := List.length_pos_of_ne_nil hitems
        exact ih _ (by rw [List.length_drop]; omega) _ s rfl

theorem terminates_readAll {recv : Nat → Nat → E}
    {answer : ∀ offset room, R (recv offset room) → Transfer (List β)} (μ : S → Nat)
    (hμ : ∀ offset room s r s₁, rel (recv offset room) s r s₁ →
      answer offset room r = .failed eintr → μ s₁ < μ s)
    (got : List β) (length : Nat) (s : S) : Terminates rel (readAll recv answer got length) s := by
  induction length using Nat.strongRecOn generalizing got s with
  | ind length ih =>
    rw [readAll]
    by_cases hlength : length = 0
    · rw [dif_pos hlength]
      exact .ret _ _
    rw [dif_neg hlength]
    refine terminates_transfer μ (hμ _ _) (fun t s => ?_) s
    cases t with
    | failed errno => exact .ret _ _
    | done received =>
      by_cases hempty : received = []
      · simp only [if_pos hempty]
        exact .ret _ _
      · simp only [if_neg hempty]
        have hreceived := List.length_pos_of_ne_nil hempty
        exact ih _ (by omega) _ s

end Termination

/-! ## The calls of the loops -/

section Calls

variable {P : E → Prop}

theorem calls_writeAll {send : List β → E} {answer : ∀ items, R (send items) → Transfer Nat}
    (h : ∀ items, P (send items)) (items : List β) :
    (writeAll send answer items : Prog E R Bool).Calls P := by
  induction hlen : items.length using Nat.strongRecOn generalizing items with
  | ind n ih =>
    subst hlen
    rw [writeAll]
    by_cases hitems : items = []
    · rw [dif_pos hitems]
      exact calls_ret _
    rw [dif_neg hitems]
    refine ⟨h _, fun _ => calls_ret _, fun t => ?_⟩
    cases t with
    | failed errno => exact calls_ret _
    | done written =>
      by_cases hzero : written = 0
      · simp only [if_pos hzero]
        exact calls_ret _
      · simp only [if_neg hzero]
        have hpos := List.length_pos_of_ne_nil hitems
        exact ih _ (by rw [List.length_drop]; omega) _ rfl

/-- Whatever it is answered, the loop stays in the room that it was given. -/
theorem calls_readAll {recv : Nat → Nat → E}
    {answer : ∀ offset room, R (recv offset room) → Transfer (List β)} {size : Nat}
    (h : ∀ offset room, 0 < room → offset + room ≤ size → P (recv offset room)) (got : List β)
    (length : Nat) (hsize : length = 0 ∨ got.length + length ≤ size) :
    (readAll recv answer got length : Prog E R (ReadAll β)).Calls P := by
  induction length using Nat.strongRecOn generalizing got with
  | ind length ih =>
    rw [readAll]
    by_cases hlength : length = 0
    · rw [dif_pos hlength]
      exact calls_ret _
    rw [dif_neg hlength]
    refine ⟨h _ _ (by omega) (by omega), fun _ => calls_ret _, fun t => ?_⟩
    cases t with
    | failed errno => exact calls_ret _
    | done received =>
      by_cases hempty : received = []
      · simp only [if_pos hempty]
        exact calls_ret _
      · simp only [if_neg hempty]
        have hreceived := List.length_pos_of_ne_nil hempty
        refine ih _ (by omega) _ ?_
        rw [List.length_append]
        omega

end Calls

end FreeProxy.Lib
