import Syinx.Kernel.Machine

/-!
# The list of live links

`m_AllConnect` is kept by `Finish` and `DisConnect`, which also set `m_Status`; one pushes
without a look at the list, the other removes whatever equals the pointer. That a link is
not pushed twice rests on libevent, which reports `BEV_EVENT_CONNECTED` once.

## What is proved

* `Linked.turns` — what a turn does to the list.
* `linked_of_exec` — as long as there is a kernel, the list holds the links that are
  `CLIENT_LOGIN`, each once, and an event changes nothing for other links.
-/

namespace Syinx.Kernel

open Syinx.Library Syinx.Tcp

variable {α : Type}

/-- The links that are `CLIENT_LOGIN` are in the list, once, and no others are. -/
def SyinxKernel.Listed (k : SyinxKernel α) : Prop :=
  ∀ c, k.allConnect.count c = if (k.conn c).status = .clientLogin then 1 else 0

/-- The invariant of the links. -/
structure Linked (k : SyinxKernel α) : Prop where
  listed : k.Listed
  reported : ∀ c, (k.conn c).status = .clientLogin → (k.conn c).reported = true
  fresh : ∀ c, k.nconn ≤ c → k.conn c = .new

theorem ConnectResults.status_conn (o : ConnectResults) : o.conn.status = .initial := by
  unfold conn
  split_ifs <;> rfl

namespace Linked

variable {k t : SyinxKernel α} {c : ℕ}

theorem not_listed (h : Linked k) (hc : (k.conn c).status ≠ .clientLogin) :
    k.allConnect.count c = 0 := by
  rw [h.listed, if_neg hc]

theorem connect (h : Linked k) (hbase : k.base = true) (o : ConnectResults) :
    Linked (k.connect o) := by
  have hnew : (k.conn k.nconn).status ≠ .clientLogin := by
    rw [h.fresh _ le_rfl]
    decide
  rw [k.connect_eq hbase]
  refine ⟨fun c => ?_, fun c => ?_, fun c hc => ?_⟩
  · by_cases hcn : c = k.nconn
    · subst hcn
      simpa [o.status_conn] using h.not_listed hnew
    · simpa [hcn] using h.listed c
  · by_cases hcn : c = k.nconn
    · subst hcn
      simp [o.status_conn]
    · simpa [hcn] using h.reported c
  · have hcn : c ≠ k.nconn := by
      rintro rfl
      exact absurd hc (Nat.not_succ_le_self _)
    simpa [hcn] using h.fresh c ((Nat.le_succ _).trans hc)

/-- An event of a link. -/
theorem event (h : Linked k) {what : BitVec 16} (hctx : (k.conn c).ctx = true)
    (hr : Reported k c what t) : Linked t := by
  have hlt : ¬ k.nconn ≤ c := by
    intro hle
    rw [h.fresh c hle] at hctx
    cases hctx
  cases hr with
  | finish hf hnew =>
    -- it has not been reported before, so `c` is not in the list
    have hc : (k.conn c).status ≠ .clientLogin := by
      intro hs
      rw [h.reported c hs] at hnew
      cases hnew
    refine ⟨fun d => ?_, fun d => ?_, fun d hd => ?_⟩
    · by_cases hdc : d = c
      · subst hdc
        simp [h.not_listed hc]
      · simpa [hdc, Ne.symm hdc] using h.listed d
    · by_cases hdc : d = c
      · subst hdc
        have hwhat : what &&& bevEventConnected ≠ 0 := of_decide_eq_true hf
        simpa [SConnect.told] using Or.intro_right ((k.conn d).reported = true) hwhat
      · simpa [hdc] using h.reported d
    · have hdc : d ≠ c := by
        rintro rfl
        exact hlt hd
      simpa [hdc] using h.fresh d hd
  | disConnect =>
    refine ⟨fun d => ?_, fun d => ?_, fun d hd => ?_⟩
    · by_cases hdc : d = c
      · subst hdc
        simp [List.count_eq_zero]
      · simpa [hdc, List.count_filter] using h.listed d
    · by_cases hdc : d = c
      · subst hdc
        simp
      · simpa [hdc] using h.reported d
    · have hdc : d ≠ c := by
        rintro rfl
        exact hlt hd
      simpa [hdc] using h.fresh d hd
  | nothing =>
    refine ⟨fun d => ?_, fun d hd => ?_, fun d hd => ?_⟩
    · by_cases hdc : d = c
      · subst hdc
        simpa [SConnect.told] using h.listed d
      · simpa [hdc] using h.listed d
    · by_cases hdc : d = c
      · subst hdc
        simp only [Function.update_self, SConnect.told] at hd ⊢
        rw [h.reported d hd, Bool.true_or]
      · simp only [Function.update_of_ne hdc] at hd ⊢
        exact h.reported d hd
    · have hdc : d ≠ c := by
        rintro rfl
        exact hlt hd
      simpa [hdc] using h.fresh d hd

/-- Nothing happens to the links. -/
theorem congr (h : Linked k) (hl : SameLinks k t) : Linked t := by
  refine ⟨?_, ?_, ?_⟩
  · unfold SyinxKernel.Listed
    rw [hl.allConnect, hl.conn]
    exact h.listed
  · rw [hl.conn]
    exact h.reported
  · rw [hl.conn, hl.nconn]
    exact h.fresh

/-- A turn. -/
theorem turns {e : KEvent α} {ops : List (KOp α)} (h : Linked k) (hbase : k.base = true)
    (hst : Turns k e t ops) : Linked t := by
  cases hst with
  | server => exact h.congr ⟨rfl, rfl, rfl, rfl, rfl, rfl⟩
  | connect o => exact h.connect hbase o
  | input => exact h.congr ⟨rfl, rfl, rfl, rfl, rfl, rfl⟩
  | event hctx hr => exact h.event hctx hr

theorem new (N : ℕ) (pthPool : Bool) : Linked (SyinxKernel.new N pthPool : SyinxKernel α) := by
  refine ⟨fun _ => rfl, fun c hc => ?_, fun _ _ => rfl⟩
  cases hc

/-- Before `TCPServer` calls `Connect`. -/
theorem listening (N : ℕ) (pthPool : Bool) :
    Linked (({ SyinxKernel.new N pthPool with mode := .tcp, base := true } :
      SyinxKernel α).call [.create .listener]) := by
  obtain ⟨hlisted, hreported, hfresh⟩ := new (α := α) N pthPool
  exact ⟨hlisted, hreported, hfresh⟩

theorem start (N : ℕ) (pthPool : Bool) (o : Option ConnectResults) :
    Linked (SyinxKernel.start N pthPool o : SyinxKernel α) := by
  cases o with
  | none =>
    obtain ⟨hlisted, hreported, hfresh⟩ := new (α := α) N pthPool
    exact ⟨hlisted, hreported, hfresh⟩
  | some o => exact (listening N pthPool).connect rfl o

end Linked

/-- An event leaves other links as they are. -/
theorem Reported.other {k t : SyinxKernel α} {c d : ℕ} {what : BitVec 16}
    (h : Reported k c what t) (hd : d ≠ c) :
    (t.conn d).status = (k.conn d).status ∧ t.allConnect.count d = k.allConnect.count d := by
  cases h with
  | finish => simp [hd, Ne.symm hd]
  | disConnect => simp [hd, List.count_filter]
  | nothing => simp [hd]

section Run

variable [Inhabited α] {P : ParseFunc α}

/-- Nothing `Close` does changes the links, before it calls `exit`. -/
theorem SyinxKernel.run_links {k t u : SyinxKernel α} {b : KOp α} {cs : List (KOp α)}
    (h : t.exited = true ∨ (t.conn = k.conn ∧ t.allConnect = k.allConnect))
    (hst : t.run P b = some (u, cs)) :
    u.exited = true ∨ (u.conn = k.conn ∧ u.allConnect = k.allConnect) := by
  by_cases hb : b = .exit
  · subst hb
    cases hst
    exact .inl rfl
  · obtain ⟨hlinks, hexited, -⟩ := run_frame hb hst
    apply h.imp (fun h => hexited.trans h)
    intro h
    exact ⟨hlinks.conn.trans h.1, hlinks.allConnect.trans h.2⟩

/-- **The list of links.** As long as there is a kernel, a link is in `m_AllConnect` once if it
is `CLIENT_LOGIN` and not at all otherwise; and an event of one link changes neither the
status of another nor whether it is in the list. -/
theorem linked_of_exec (P : ParseFunc α) (N : ℕ) (pthPool : Bool) (o : Option ConnectResults)
    (as : List (Interrupt.Act (KEvent α))) (p : Process α)
    (h : exec (Process.step P) (.start N pthPool o) as = some p) (hkernel : p.st.exited = false) :
    p.st.Listed ∧
      ∀ c what q, p.step P (.turn (.event c what)) = some q → ∀ d ≠ c,
        (q.st.conn d).status = (p.st.conn d).status ∧
          q.st.allConnect.count d = p.st.allConnect.count d := by
  have hshape := shape_of_inv (I := fun k _ => Linked k) (.start N pthPool o)
    (fun k e t ops hk hI ht => hI.turns hk.base ht)
    (fun k b t bs cs hI hr => hI.congr hr.frame.1) h
  refine ⟨?_, fun c what q hq d hd => ?_⟩
  · have hclosing : ∀ k cs, Linked k →
        Interrupt.Reaches (SyinxKernel.run P) k closeBody p.st cs → p.st.Listed := by
      intro k cs hk hreach
      have hlinks := hreach.inv (fun _ _ _ _ => SyinxKernel.run_links) (.inr ⟨rfl, rfl⟩)
      obtain ⟨hconn, hlist⟩ := hlinks.resolve_left (by rw [hkernel]; decide)
      unfold SyinxKernel.Listed
      rw [hconn, hlist]
      exact hk.listed
    obtain ⟨_, -, hk⟩ | ⟨-, k, _, cs, ⟨-, hk⟩, hreach⟩ := hshape.reaches
    · exact hk.listed
    · exact hclosing k cs hk hreach
  · simp only [Process.step, Interrupt.Proc.step] at hq
    split_ifs at hq
    obtain ⟨⟨t, ops⟩, ht, rfl⟩ := Option.map_eq_some_iff.mp hq
    cases SyinxKernel.turns_of_turn ht with
    | event _ hr => exact hr.other hd

end Run

/-- Every call in `Connect` succeeds. -/
def connectOk : ConnectResults := ⟨true, true, true⟩

/-- The first link fails and then connects, the second one connects and ends. -/
def twoLinks : List (Interrupt.Act (KEvent UInt8)) :=
  [.turn (.connect connectOk), .run, .turn (.event 0 bevEventError), .run,
    .turn (.event 0 bevEventConnected), .run, .turn (.event 1 bevEventConnected), .run,
    .turn (.event 1 bevEventEof), .run]

theorem linked_twoLinks :
    ∃ p, exec (Process.step recvValuesFromString) (.start 2 true (some connectOk)) twoLinks = some p ∧
      p.st.allConnect = [0] ∧ p.st.Listed := by
  have h := linked_of_exec recvValuesFromString 2 true (some connectOk) twoLinks _ rfl rfl
  exact ⟨_, rfl, rfl, h.1⟩

end Syinx.Kernel
