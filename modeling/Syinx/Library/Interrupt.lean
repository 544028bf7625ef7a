import Syinx.Library.Runs

/-!
# A handler that ends the program

A program takes turns; a turn is a list of operations, and an operation may be replaced by
others when its turn comes. At any point, also in the middle of a turn, a handler can be
called, and again while it runs. It looks at a flag first: if the flag is set it returns,
and what it has interrupted goes on. If not, it sets the flag, runs its body, calls itself
once more and ends the program. The calls are kept on a stack of frames.

The handler can be interrupted between its look at the flag and the setting of it, and the
one that interrupts it runs the body instead.

## What is proved

* `Triple.append`, `Triple.cons` — what holds at every point of a list of operations, from
  what holds at every point of its parts; `Triple.of_forall` for operations of one kind.
* `Shape.step` — what the stack looks like: before the flag is set the handlers on it have
  done nothing, and the turn below them is as it was; after that there is one body that
  runs, and what it has interrupted stays where it is.
* `shape_of_exec` — the same after every run.
* `Closing.st_step` — when the body is over, nothing changes any more.
-/

namespace Syinx.Library.Interrupt

universe u v w

variable {σ : Type u} {β : Type v} {α : Type w}

/-! ### Operations that are replaced by others -/

section Reaches

variable {run : σ → β → Option (σ × List β)}

/-- From `s`, with the operations `bs` to do, the state `t` is reached with `cs` left. -/
inductive Reaches (run : σ → β → Option (σ × List β)) (s : σ) (bs : List β) : σ → List β → Prop
  /-- Nothing has been done. -/
  | refl : Reaches run s bs s bs
  /-- The first of the operations left is done. -/
  | tail {t u : σ} {b : β} {cs ds : List β} : Reaches run s bs t (b :: cs) →
      run t b = some (u, ds) → Reaches run s bs u (ds ++ cs)

/-- What every operation keeps. -/
theorem Reaches.inv {I : σ → Prop} (hI : ∀ t b u cs, I t → run t b = some (u, cs) → I u)
    {s t : σ} {bs cs : List β} (h : Reaches run s bs t cs) (hs : I s) : I t := by
  induction h with
  | refl => exact hs
  | tail _ hr ih => exact hI _ _ _ _ ih hr

/-- With nothing to do, nothing happens. -/
theorem Reaches.of_nil {s t : σ} {cs : List β} (h : Reaches run s [] t cs) : t = s ∧ cs = [] := by
  induction h with
  | refl => exact ⟨rfl, rfl⟩
  | tail _ _ ih => cases ih.2

/-- The first operation is done first. -/
theorem Reaches.cons_cases {s t : σ} {b : β} {bs cs : List β} (h : Reaches run s (b :: bs) t cs) :
    (t = s ∧ cs = b :: bs) ∨ ∃ u ds, run s b = some (u, ds) ∧ Reaches run u (ds ++ bs) t cs := by
  induction h with
  | refl => exact .inl ⟨rfl, rfl⟩
  | tail _ hr ih =>
    rcases ih with ⟨rfl, hcs⟩ | ⟨u, ds, hu, hreach⟩
    · cases hcs
      exact .inr ⟨_, _, hr, .refl⟩
    · exact .inr ⟨u, ds, hu, hreach.tail hr⟩

/-- One part is done before the next. -/
theorem Reaches.append_cases {s t : σ} {as bs cs : List β} (h : Reaches run s (as ++ bs) t cs) :
    (∃ ds, cs = ds ++ bs ∧ Reaches run s as t ds) ∨
      ∃ u, Reaches run s as u [] ∧ Reaches run u bs t cs := by
  induction h with
  | refl => exact .inl ⟨as, rfl, .refl⟩
  | @tail t u b cs es _ hr ih =>
    rcases ih with ⟨ds, hcs, hreach⟩ | ⟨v, hv, hreach⟩
    · cases ds with
      | nil =>
        rw [List.nil_append] at hcs
        rw [← hcs]
        exact .inr ⟨t, hreach, Reaches.refl.tail hr⟩
      | cons d ds =>
        rw [List.cons_append, List.cons.injEq] at hcs
        obtain ⟨rfl, rfl⟩ := hcs
        exact .inl ⟨es ++ ds, (List.append_assoc ..).symm, hreach.tail hr⟩
    · exact .inr ⟨v, hv, hreach.tail hr⟩

/-- While the operations are done `Q` holds, and `R` holds when they are over. -/
def Triple (run : σ → β → Option (σ × List β)) (Q R : σ → Prop) (s : σ) (bs : List β) : Prop :=
  ∀ t cs, Reaches run s bs t cs → Q t ∧ (cs = [] → R t)

variable {Q R : σ → Prop} {s : σ}

theorem Triple.nil (hQ : Q s) (hR : R s) : Triple run Q R s [] := by
  intro t cs h
  obtain ⟨rfl, -⟩ := h.of_nil
  exact ⟨hQ, fun _ => hR⟩

theorem Triple.cons {b : β} {bs : List β} (hQ : Q s)
    (h : ∀ t ds, run s b = some (t, ds) → Triple run Q R t (ds ++ bs)) :
    Triple run Q R s (b :: bs) := by
  intro t cs hreach
  rcases hreach.cons_cases with ⟨rfl, rfl⟩ | ⟨u, ds, hu, hreach⟩
  · exact ⟨hQ, fun hcs => by cases hcs⟩
  · exact h u ds hu t cs hreach

theorem Triple.append {R' : σ → Prop} {as bs : List β} (ha : Triple run Q R' s as)
    (hb : ∀ t, R' t → Triple run Q R t bs) : Triple run Q R s (as ++ bs) := by
  intro t cs hreach
  rcases hreach.append_cases with ⟨ds, hcs, hreach⟩ | ⟨u, hu, hreach⟩
  · obtain ⟨hQ, hR'⟩ := ha t ds hreach
    refine ⟨hQ, fun hnil => ?_⟩
    rw [hcs, List.append_eq_nil_iff] at hnil
    obtain ⟨hds, hbs⟩ := hnil
    exact (hb t (hR' hds) t bs .refl).2 hbs
  · exact hb u ((ha u [] hu).2 rfl) t cs hreach

theorem Triple.mono {Q' R' : σ → Prop} {bs : List β} (h : Triple run Q R s bs)
    (hQ : ∀ t, Q t → Q' t) (hR : ∀ t, R t → R' t) : Triple run Q' R' s bs := by
  intro t cs hreach
  obtain ⟨hq, hr⟩ := h t cs hreach
  exact ⟨hQ t hq, fun hcs => hR t (hr hcs)⟩

/-- Operations of a kind that keeps `Q` and is replaced by operations of the same kind. -/
theorem Triple.of_forall {C : β → Prop} {bs : List β}
    (hC : ∀ t b u cs, C b → Q t → run t b = some (u, cs) → Q u ∧ ∀ c ∈ cs, C c)
    (hs : Q s) (hbs : ∀ b ∈ bs, C b) : Triple run Q Q s bs := by
  have hinv : ∀ t cs, Reaches run s bs t cs → Q t ∧ ∀ c ∈ cs, C c := by
    intro t cs h
    induction h with
    | refl => exact ⟨hs, hbs⟩
    | @tail t u b cs ds _ hr ih =>
      obtain ⟨hb, hcs⟩ := List.forall_mem_cons.mp ih.2
      obtain ⟨hu, hds⟩ := hC t b u ds hb ih.1 hr
      refine ⟨hu, fun c hc => ?_⟩
      rcases List.mem_append.mp hc with hc | hc
      · exact hds c hc
      · exact hcs c hc
  exact fun t cs h => ⟨(hinv t cs h).1, fun _ => (hinv t cs h).1⟩

end Reaches

/-! ### The stack -/

/-- What stands in a frame. -/
inductive Instr (β : Type v) where
  /-- Return if the flag is set. -/
  | test
  /-- Set the flag. -/
  | set
  /-- An operation. -/
  | op (b : β)
  /-- Call the handler. -/
  | enter
  /-- The program ends. -/
  | halt

/-- The handler, with its body. -/
def handler (body : List β) : List (Instr β) :=
  .test :: .set :: (body.map .op ++ [.enter, .halt])

/-- A program with its stack, the frame that runs first. -/
structure Proc (σ : Type u) (β : Type v) where
  /-- The state. -/
  st : σ
  /-- The flag. -/
  closed : Bool
  /-- The stack. -/
  frames : List (List (Instr β))
  /-- The program has ended. -/
  ended : Bool
  /-- When the flag was set: the state, and the frames that were interrupted. -/
  entered : Option (σ × List (List (Instr β)))

/-- At the start. -/
def Proc.start (s : σ) : Proc σ β := ⟨s, false, [], false, none⟩

/-- What can happen. -/
inductive Act (α : Type w) where
  /-- A turn begins. -/
  | turn (a : α)
  /-- The handler is called. -/
  | signal
  /-- The first instruction of the first frame is carried out; an empty frame returns. -/
  | run

section Step

variable (body : List β) (run : σ → β → Option (σ × List β)) (turn : σ → α → Option (σ × List β))

/-- A step of the program. -/
def Proc.step (p : Proc σ β) : Act α → Option (Proc σ β)
  | .turn a =>
    if p.frames = [] ∧ p.closed = false ∧ p.ended = false then
      (turn p.st a).map fun r => { p with st := r.1, frames := [r.2.map .op] }
    else none
  | .signal => if p.ended = true then none else some { p with frames := handler body :: p.frames }
  | .run =>
    match p.frames with
    | [] => none
    | [] :: fs => some { p with frames := fs }
    | (.test :: is) :: fs =>
      if p.closed = true then some { p with frames := fs } else some { p with frames := is :: fs }
    | (.set :: is) :: fs =>
      some { p with closed := true, entered := some (p.st, fs), frames := is :: fs }
    | (.op b :: is) :: fs =>
      (run p.st b).map fun r => { p with st := r.1, frames := (r.2.map .op ++ is) :: fs }
    | (.enter :: is) :: fs => some { p with frames := handler body :: is :: fs }
    | (.halt :: _) :: _ => some { p with frames := [], ended := true }

/-! ### What the stack looks like -/

/-- A handler that has not set the flag. -/
def Untouched (f : List (Instr β)) : Prop := f = handler body ∨ f = (handler body).tail

/-- No turn, or one of which some operations are left; `J` says what holds of the state and
of these operations. -/
def Turn (J : σ → List β → Prop) (s : σ) (fs : List (List (Instr β))) : Prop :=
  (fs = [] ∧ J s []) ∨ ∃ bs : List β, fs = [bs.map .op] ∧ J s bs

theorem Turn.holds {J : σ → List β → Prop} {s : σ} {fs : List (List (Instr β))}
    (h : Turn J s fs) : ∃ bs, J s bs := by
  obtain ⟨-, h⟩ | ⟨bs, -, h⟩ := h
  · exact ⟨[], h⟩
  · exact ⟨bs, h⟩

/-- A program whose flag is not set. -/
structure Opened (J : σ → List β → Prop) (p : Proc σ β) : Prop where
  ended : p.ended = false
  closed : p.closed = false
  entered : p.entered = none
  /-- Handlers that have done nothing, above the turn. -/
  frames : ∃ above below, p.frames = above ++ below ∧ (∀ f ∈ above, Untouched body f) ∧
    Turn J p.st below

/-- A program whose flag was set in the state `s`, above the frames `rest`. -/
structure Closing (p : Proc σ β) (s : σ) (rest : List (List (Instr β))) : Prop where
  ended : p.ended = false
  closed : p.closed = true
  entered : p.entered = some (s, rest)
  /-- The body runs, and has handlers above it that return. -/
  frames : ∃ bs is above, p.frames = above ++ (bs.map .op ++ is) :: rest ∧
    (∀ f ∈ above, f = handler body) ∧ Reaches run s body p.st bs ∧
    (is = [.enter, .halt] ∨ bs = [] ∧ is = [.halt])

/-- A program that has ended; its flag was set in the state `s`. -/
structure Ended (p : Proc σ β) (s : σ) : Prop where
  ended : p.ended = true
  closed : p.closed = true
  frames : p.frames = []
  entered : ∃ rest, p.entered = some (s, rest)
  reaches : Reaches run s body p.st []

/-- What is known at any point of a run. -/
def Shape (J : σ → List β → Prop) (p : Proc σ β) : Prop :=
  Opened body J p ∨ ∃ s, (∃ bs, J s bs) ∧ ((∃ rest, Closing body run p s rest) ∨ Ended body run p s)

end Step

section Steps

variable {body : List β} {run : σ → β → Option (σ × List β)} {turn : σ → α → Option (σ × List β)}
  {J : σ → List β → Prop} {p q : Proc σ β}

theorem Opened.start {s : σ} (h : J s []) : Opened body J (Proc.start s) :=
  ⟨rfl, rfl, rfl, [], [], rfl, List.forall_mem_nil _, .inl ⟨rfl, h⟩⟩

/-- Before the flag is set. -/
theorem Opened.step (hturn : ∀ s a t bs, J s [] → turn s a = some (t, bs) → J t bs)
    (hrun : ∀ s b bs t cs, J s (b :: bs) → run s b = some (t, cs) → J t (cs ++ bs))
    (h : Opened body J p) {a : Act α} (hst : p.step body run turn a = some q) :
    Opened body J q ∨ ∃ rest, Closing body run q p.st rest := by
  obtain ⟨hended, hclosed, hentered, above, below, hframes, habove, hbelow⟩ := h
  cases a with
  | turn a =>
    simp only [Proc.step] at hst
    split_ifs at hst with hc
    · obtain ⟨⟨t, bs⟩, hr, rfl⟩ := Option.map_eq_some_iff.mp hst
      rw [hc.1, eq_comm, List.append_eq_nil_iff] at hframes
      obtain ⟨rfl, rfl⟩ := hframes
      obtain ⟨-, hJ⟩ | ⟨cs, hcs, -⟩ := hbelow
      · exact .inl ⟨hended, hclosed, hentered, [], _, rfl, List.forall_mem_nil _,
          .inr ⟨bs, rfl, hturn _ _ _ _ hJ hr⟩⟩
      · cases hcs
  | signal =>
    simp only [Proc.step] at hst
    split_ifs at hst with hc
    · cases hst
      refine .inl ⟨hended, hclosed, hentered, handler body :: above, below, ?_, ?_, hbelow⟩
      · show _ :: p.frames = _
        rw [hframes]
        rfl
      · intro f hf
        rcases List.mem_cons.mp hf with rfl | hf
        · exact .inl rfl
        · exact habove f hf
  | run =>
    cases above with
    | nil =>
      rw [List.nil_append] at hframes
      obtain ⟨rfl, hJ⟩ | ⟨bs, rfl, hJ⟩ := hbelow
      · simp only [Proc.step, hframes] at hst
        cases hst
      · cases bs with
        | nil =>
          simp only [Proc.step, hframes, List.map_nil] at hst
          cases hst
          exact .inl ⟨hended, hclosed, hentered, [], [], rfl, List.forall_mem_nil _, .inl ⟨rfl, hJ⟩⟩
        | cons b bs =>
          simp only [Proc.step, hframes, List.map_cons] at hst
          obtain ⟨⟨t, cs⟩, hr, rfl⟩ := Option.map_eq_some_iff.mp hst
          refine .inl ⟨hended, hclosed, hentered, [], _, rfl, List.forall_mem_nil _,
            .inr ⟨cs ++ bs, ?_, hrun _ _ _ _ _ hJ hr⟩⟩
          rw [List.map_append]
    | cons f above =>
      obtain ⟨rfl | rfl, hrest⟩ := List.forall_mem_cons.mp habove
      · -- it finds the flag not set
        simp only [Proc.step, hframes, List.cons_append, handler, hclosed] at hst
        cases hst
        exact .inl ⟨hended, rfl, hentered, (handler body).tail :: above, below, rfl,
          List.forall_mem_cons.mpr ⟨.inr rfl, hrest⟩, hbelow⟩
      · -- it sets the flag
        simp only [Proc.step, hframes, List.cons_append, handler, List.tail_cons] at hst
        cases hst
        exact .inr ⟨above ++ below, hended, rfl, rfl, body, [.enter, .halt], [], rfl,
          List.forall_mem_nil _, .refl, .inl rfl⟩

/-- After the flag has been set. -/
theorem Closing.step {s : σ} {rest : List (List (Instr β))} (h : Closing body run p s rest)
    {a : Act α} (hst : p.step body run turn a = some q) :
    Closing body run q s rest ∨ Ended body run q s := by
  obtain ⟨hended, hclosed, hentered, bs, is, above, hframes, habove, hreach, his⟩ := h
  cases a with
  | turn a =>
    simp only [Proc.step] at hst
    rw [if_neg fun hc => by rw [hclosed] at hc; cases hc.2.1] at hst
    cases hst
  | signal =>
    simp only [Proc.step, hended] at hst
    cases hst
    refine .inl ⟨rfl, hclosed, hentered, bs, is, handler body :: above, ?_, ?_, hreach, his⟩
    · show _ :: p.frames = _
      rw [hframes]
      rfl
    · exact List.forall_mem_cons.mpr ⟨rfl, habove⟩
  | run =>
    cases above with
    | cons f above =>
      -- a handler that returns
      obtain ⟨rfl, hrest⟩ := List.forall_mem_cons.mp habove
      simp only [Proc.step, hframes, List.cons_append, handler, hclosed, if_true] at hst
      cases hst
      exact .inl ⟨hended, rfl, hentered, bs, is, above, rfl, hrest, hreach, his⟩
    | nil =>
      rw [List.nil_append] at hframes
      cases bs with
      | cons b bs =>
        simp only [Proc.step, hframes, List.map_cons, List.cons_append] at hst
        obtain ⟨⟨t, cs⟩, hr, rfl⟩ := Option.map_eq_some_iff.mp hst
        obtain rfl : is = [.enter, .halt] := his.resolve_right fun hn => by cases hn.1
        refine .inl ⟨hended, hclosed, hentered, cs ++ bs, [.enter, .halt], [], ?_,
          List.forall_mem_nil _, hreach.tail hr, .inl rfl⟩
        simp
      | nil =>
        obtain rfl | ⟨-, rfl⟩ := his
        · -- the handler is called once more
          simp only [Proc.step, hframes, List.map_nil, List.nil_append] at hst
          cases hst
          exact .inl ⟨hended, hclosed, hentered, [], [.halt], [handler body], rfl,
            fun f hf => List.mem_singleton.mp hf, hreach, .inr ⟨rfl, rfl⟩⟩
        · simp only [Proc.step, hframes, List.map_nil, List.nil_append] at hst
          cases hst
          exact .inr ⟨rfl, hclosed, rfl, ⟨rest, hentered⟩, hreach⟩

/-- When the body is over, the state stays as it is. -/
theorem Closing.st_step {s : σ} {rest : List (List (Instr β))} (h : Closing body run p s rest)
    (hdone : ∀ bs, Reaches run s body p.st bs → bs = []) {a : Act α}
    (hst : p.step body run turn a = some q) : q.st = p.st := by
  obtain ⟨hended, hclosed, -, bs, is, above, hframes, habove, hreach, his⟩ := h
  obtain rfl := hdone bs hreach
  cases a with
  | turn a =>
    simp only [Proc.step] at hst
    rw [if_neg fun hc => by rw [hclosed] at hc; cases hc.2.1] at hst
    cases hst
  | signal =>
    simp only [Proc.step, hended] at hst
    cases hst
    rfl
  | run =>
    cases above with
    | cons f above =>
      obtain ⟨rfl, -⟩ := List.forall_mem_cons.mp habove
      simp only [Proc.step, hframes, List.cons_append, handler, hclosed, if_true] at hst
      cases hst
      rfl
    | nil =>
      obtain rfl | ⟨-, rfl⟩ := his <;>
        simp only [Proc.step, hframes, List.nil_append, List.map_nil] at hst <;> cases hst <;> rfl

/-- What a step does to the state: a turn begins, or at most one operation is done. -/
theorem Proc.st_step {a : Act α} (hst : p.step body run turn a = some q) :
    (∃ e bs, a = .turn e ∧ turn p.st e = some (q.st, bs)) ∨
      (∀ e, a ≠ .turn e) ∧ (q.st = p.st ∨ ∃ b cs, run p.st b = some (q.st, cs)) := by
  cases a with
  | turn e =>
    simp only [Proc.step] at hst
    split_ifs at hst
    obtain ⟨⟨t, bs⟩, hr, rfl⟩ := Option.map_eq_some_iff.mp hst
    exact .inl ⟨e, bs, rfl, hr⟩
  | signal =>
    simp only [Proc.step] at hst
    split_ifs at hst
    cases hst
    exact .inr ⟨fun _ h => (by cases h), .inl rfl⟩
  | run =>
    refine .inr ⟨fun _ h => (by cases h), ?_⟩
    simp only [Proc.step] at hst
    split at hst
    · cases hst
    · cases hst; exact .inl rfl
    · split_ifs at hst <;> cases hst <;> exact .inl rfl
    · cases hst; exact .inl rfl
    · obtain ⟨⟨t, bs⟩, hr, rfl⟩ := Option.map_eq_some_iff.mp hst
      exact .inr ⟨_, _, hr⟩
    · cases hst; exact .inl rfl
    · cases hst; exact .inl rfl

/-- Once the flag is set no turn begins, and the flag stays set. -/
theorem Proc.closed_step (hc : p.closed = true) {a : Act α} (hst : p.step body run turn a = some q) :
    q.closed = true ∧ ∀ e, a ≠ .turn e := by
  cases a with
  | turn e =>
    simp only [Proc.step, hc] at hst
    simp at hst
  | signal =>
    simp only [Proc.step] at hst
    split_ifs at hst
    cases hst
    exact ⟨hc, fun _ h => (by cases h)⟩
  | run =>
    refine ⟨?_, fun _ h => (by cases h)⟩
    simp only [Proc.step] at hst
    split at hst
    · cases hst
    · cases hst; exact hc
    · rw [if_pos hc] at hst; cases hst; exact hc
    · cases hst; rfl
    · obtain ⟨r, -, rfl⟩ := Option.map_eq_some_iff.mp hst
      exact hc
    · cases hst; exact hc
    · cases hst; exact hc

/-- After the end nothing can happen. -/
theorem Ended.step {s : σ} (h : Ended body run p s) (a : Act α) :
    p.step body run turn a = none := by
  cases a with
  | turn a => exact if_neg fun hc => by rw [h.ended] at hc; cases hc.2.2
  | signal => exact if_pos h.ended
  | run => simp only [Proc.step, h.frames]

/-- **What the stack looks like** is kept by every step. -/
theorem Shape.step (hturn : ∀ s a t bs, J s [] → turn s a = some (t, bs) → J t bs)
    (hrun : ∀ s b bs t cs, J s (b :: bs) → run s b = some (t, cs) → J t (cs ++ bs))
    (h : Shape body run J p) {a : Act α} (hst : p.step body run turn a = some q) :
    Shape body run J q := by
  obtain h | ⟨s, hs, ⟨rest, h⟩ | h⟩ := h
  · obtain hq | ⟨rest, hq⟩ := h.step hturn hrun hst
    · exact .inl hq
    · obtain ⟨_, _, -, -, hbelow⟩ := h.frames
      exact .inr ⟨p.st, hbelow.holds, .inl ⟨rest, hq⟩⟩
  · obtain hq | hq := h.step hst
    · exact .inr ⟨s, hs, .inl ⟨rest, hq⟩⟩
    · exact .inr ⟨s, hs, .inr hq⟩
  · rw [h.step] at hst
    cases hst

/-- A turn goes on, or the body does. -/
theorem Shape.reaches (h : Shape body run J p) :
    (∃ bs, J p.st bs) ∨
      p.closed = true ∧ ∃ s bs cs, J s bs ∧ Reaches run s body p.st cs := by
  obtain hopen | ⟨s, ⟨bs, hs⟩, ⟨rest, hclose⟩ | hend⟩ := h
  · obtain ⟨_, _, -, -, hturn⟩ := hopen.frames
    exact .inl hturn.holds
  · obtain ⟨cs, _, _, -, -, hreach, -⟩ := hclose.frames
    exact .inr ⟨hclose.closed, s, bs, cs, hs, hreach⟩
  · exact .inr ⟨hend.closed, s, bs, [], hs, hend.reaches⟩

/-- The stack looks like that after every run. -/
theorem shape_of_exec (hturn : ∀ s a t bs, J s [] → turn s a = some (t, bs) → J t bs)
    (hrun : ∀ s b bs t cs, J s (b :: bs) → run s b = some (t, cs) → J t (cs ++ bs))
    {s : σ} (hs : J s []) {as : List (Act α)}
    (h : exec (Proc.step body run turn) (.start s) as = some p) : Shape body run J p :=
  inv_of_exec (fun _ _ _ hp hst => hp.step hturn hrun hst) (.inl (.start hs)) h

end Steps

end Syinx.Library.Interrupt
