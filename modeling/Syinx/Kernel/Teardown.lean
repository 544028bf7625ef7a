import Syinx.Kernel.Closing

/-!
# The order of the teardown

What has been created on an `event_base` is to be freed before the base is. `Close` frees the
`bufferevent`s of the clients first, through the resource manager, and the base next; the
evhttp server and the links come after that, and the listener is not freed at all. `Close` comes
to its end, or as far as the first link that is connected (`Finished`).

## What is proved

* `not_tornDown_of_exec` — in every run in which `Close` comes as far as it comes, something made
  on the base is not freed before it.
-/

namespace Syinx.Kernel

open Syinx.Library Syinx.Tcp

variable {α : Type} {k t : SyinxKernel α}

/-- What has been created on the base has been freed once before it, and is not freed or used
after it. -/
def TornDown (calls : List Call) : Prop :=
  ∃ before after, calls = before ++ .baseFree :: after ∧
    (∀ o, o.onBase = true → .create o ∈ calls → before.count (.free o) = 1) ∧
    ∀ o, o.onBase = true → .free o ∉ after ∧ .use o ∉ after

/-- What the server has been created with. -/
def ServerMode.obj : ServerMode → Obj
  | .tcp => .listener
  | .http => .evhttp

theorem ServerMode.onBase_obj (m : ServerMode) : m.obj.onBase = true := by cases m <;> rfl

/-- It has been created. -/
def Served (k : SyinxKernel α) : Prop := .create k.mode.obj ∈ k.calls

theorem Served.call (h : Served k) (hm : t.mode = k.mode) {cs : List Call}
    (hc : t.calls = k.calls ++ cs) : Served t := by
  unfold Served
  rw [hm, hc]
  exact List.mem_append_left cs h

theorem Served.turns (h : Served k) (hbase : k.base = true) {e : KEvent α} {ops : List (KOp α)}
    (hst : Turns k e t ops) : Served t := by
  cases hst with
  | server => exact h.call rfl rfl
  | connect o =>
    rw [k.connect_eq hbase]
    exact h.call rfl rfl
  | input => exact h.call rfl rfl
  | event _ hr =>
    cases hr with
    | disConnect => exact h.call rfl rfl
    | _ => exact h

theorem Served.start (N : ℕ) (pthPool : Bool) (o : Option ConnectResults) :
    Served (SyinxKernel.start N pthPool o : SyinxKernel α) := by
  cases o with
  | none => exact List.mem_singleton.mpr rfl
  | some o =>
    have hstart : (SyinxKernel.start N pthPool (some o) : SyinxKernel α) = _ :=
      SyinxKernel.connect_eq _ rfl o
    rw [hstart]
    exact List.mem_append_left _ (List.mem_singleton.mpr rfl)

/-- Before the base, neither the listener nor the evhttp server is freed. -/
theorem not_mem_of_ofTurn {calls : List Call} (h : ∀ x ∈ calls, x.ofTurn = true) (m : ServerMode) :
    .free m.obj ∉ calls ∧ .baseFree ∉ calls := by
  refine ⟨Call.not_mem h ?_, Call.not_mem h rfl⟩
  cases m <;> rfl

/-- What the server was created with is not freed before the base. -/
theorem not_tornDown_of_calls {m : ServerMode} {early : List Call} {k : SyinxKernel α}
    (hearly : ∀ x ∈ early, x.ofTurn = true) (hm : .create m.obj ∈ early) :
    ¬ TornDown (early ++ .baseFree :: lateCalls k) := by
  rintro ⟨before, after, hcalls, hfreed, -⟩
  obtain ⟨hfree, hbase⟩ := not_mem_of_ofTurn hearly m
  have hcount := hfreed m.obj m.onBase_obj (List.mem_append_left _ hm)
  have hmem : .free m.obj ∈ before := List.count_pos_iff.mp (by omega)
  rcases List.append_eq_append_iff.mp hcalls with ⟨as, hbefore, hafter⟩ | ⟨bs, hbefore, -⟩
  · cases as with
    | nil =>
      rw [List.append_nil] at hbefore
      exact hfree (hbefore ▸ hmem)
    | cons a as =>
      -- the base is freed once
      rw [List.cons_append, List.cons.injEq] at hafter
      have hlate : Call.baseFree ∈ lateCalls k := by
        rw [hafter.2]
        exact List.mem_append_right as List.mem_cons_self
      obtain hx | ⟨c, -, hx | ⟨hx, -⟩⟩ := mem_lateCalls hlate <;> cases hx
  · rw [hbefore] at hfree
    exact hfree (List.mem_append_left bs hmem)

/-- **The order of the teardown** is wrong in every run in which `Close` comes as far as it
comes. -/
theorem not_tornDown_of_exec [Inhabited α] (P : ParseFunc α) (N : ℕ) (pthPool : Bool)
    (o : Option ConnectResults) (as : List (Interrupt.Act (KEvent α))) (p : Process α)
    (h : exec (Process.step P) (.start N pthPool o) as = some p) (hf : p.st.Finished) :
    ¬ TornDown p.st.calls := by
  have hcalls := calls_of_exec (I := Served) (.start N pthPool o)
    (fun k e t ops hk hI ht => hI.turns hk.base ht) (fun k s cs _ hI => hI.call rfl rfl) h
  obtain ⟨⟨ops, hk⟩, -, -⟩ | ⟨-, k, ops, hk, hserved, hkept, hcloses⟩ := hcalls
  · exact absurd hf hk.not_finished
  · obtain ⟨clients, done, todo, hclients, hdone, hc, htodo⟩ := hcloses.calls
    rw [htodo hf, List.append_nil] at hdone
    rw [hc, hdone, ← List.append_assoc]
    refine not_tornDown_of_calls (m := k.mode) (fun x hx => ?_) (List.mem_append_left _ hserved)
    rcases List.mem_append.mp hx with hx | hx
    · exact hkept x hx
    · exact Call.ofTurn_of_ofClient (hclients x hx)

/-- The evhttp server is freed after the base. -/
theorem not_tornDown_http :
    ∃ p, exec (Process.step recvValuesFromString) (.start 1 true none) (closedBySignal 27) = some p ∧
      p.ended = true ∧ p.st.calls = [.create .evhttp, .baseFree, .free .evhttp] ∧
        ¬ TornDown p.st.calls :=
  ⟨_, rfl, rfl, rfl,
    not_tornDown_of_exec recvValuesFromString 1 true none (closedBySignal 27) _ rfl (.inl rfl)⟩

/-- The listener is not freed. -/
theorem not_tornDown_tcp :
    ∃ p, exec (Process.step recvValuesFromString) (.start 1 true (some ⟨false, true, true⟩))
        (closedBySignal 25) = some p ∧
      p.ended = true ∧ p.st.calls = [.create .listener, .baseFree] ∧ ¬ TornDown p.st.calls := by
  have hnot : ¬ TornDown [.create .listener, .baseFree] := by
    rintro ⟨before, after, hcalls, hfreed, -⟩
    have hcreated : Call.create .listener ∈ [Call.create .listener, Call.baseFree] := by decide
    have hcount := hfreed .listener rfl hcreated
    have hmem : Call.free .listener ∈ before := List.count_pos_iff.mp (by omega)
    have hall : Call.free .listener ∈ [Call.create .listener, Call.baseFree] := by
      rw [hcalls]
      exact List.mem_append_left _ hmem
    exact absurd hall (by decide)
  exact ⟨_, rfl, rfl, rfl, hnot⟩

end Syinx.Kernel
