import OnePass.Program
import OnePass.Proofs.Phrase
import OnePass.Proofs.Run

/-!
# A logic of meanings

An action on a context meets a postcondition if every success of it comes with the postcondition.  In
the strict reading a failure has a reason that lies in the program, at a place of it: faults of the compiler
itself are ruled out.  Actions and phrases can also be compared with a result that is computed otherwise.

Main results:

* `Meaning.meets_bind` and the rules of the basic actions, each an equivalence;
* `Meaning.tells_cons`, `Meaning.tells_append` — events one by one and phrase by phrase;
* `Meaning.Tells.beginning` — the beginning of a phrase does not fail inside the compiler either;
* `Meaning.Agrees.bind`, `Meaning.echoes_cons`, `Meaning.echoes_append` — the rules of comparisons.
-/

namespace OnePass.Meaning

open List

/-- An action succeeds with a postcondition or fails, in the strict reading with an external fault. -/
def Meets {α : Type} (strict : Bool) (m : Meaning α) (c : Context) (Q : α → Context → Prop) : Prop :=
  match m.run.run c with
  | (.ok a, c') => Q a c'
  | (.error d, _) => strict → d.External

section rules

variable {α β : Type} {strict : Bool} {c : Context}
variable {m : Meaning α} {Q : α → Context → Prop}

theorem Meets.of_run {a : α} {c' : Context} (h : Meets strict m c Q) (hrun : m.run.run c = (.ok a, c')) :
    Q a c' := by
  unfold Meets at h
  rw [hrun] at h
  exact h

theorem meets_pure {a : α} : Meets strict (pure a) c Q ↔ Q a c := Iff.rfl

theorem meets_throw {d : Diagnostic} : Meets strict (throw d) c Q ↔ (strict → d.External) := Iff.rfl

theorem meets_get {Q : Context → Context → Prop} : Meets strict get c Q ↔ Q c c := Iff.rfl

theorem meets_modify {f : Context → Context} {Q : Unit → Context → Prop} :
    Meets strict (modify f) c Q ↔ Q () (f c) := Iff.rfl

theorem meets_run {a : α} {c' : Context} (hrun : m.run.run c = (.ok a, c')) (h : Q a c') :
    Meets strict m c Q := by
  unfold Meets
  rw [hrun]
  exact h

theorem meets_bind {f : α → Meaning β} {Q : β → Context → Prop} :
    Meets strict (m >>= f) c Q ↔ Meets strict m c fun a c' => Meets strict (f a) c' Q := by
  unfold Meets
  rw [run_bind]
  rcases m.run.run c with ⟨_ | _, _⟩ <;> rfl

theorem Meets.mono {R : α → Context → Prop} (h : Meets strict m c Q) (himp : ∀ a c', Q a c' → R a c') :
    Meets strict m c R := by
  unfold Meets at h ⊢
  split at h
  · exact himp _ _ h
  · exact h

theorem Meets.bind {f : α → Meaning β} {P : α → Context → Prop} {Q : β → Context → Prop}
    (h : Meets strict m c P) (hnext : ∀ a c', P a c' → Meets strict (f a) c' Q) :
    Meets strict (m >>= f) c Q :=
  meets_bind.2 (h.mono hnext)

theorem meets_discard {Q : Unit → Context → Prop} :
    Meets strict (discard m) c Q ↔ Meets strict m c fun _ c' => Q () c' := by
  have heq : discard m = m >>= fun _ => pure () := by
    rw [bind_pure_comp]
    rfl
  rw [heq, meets_bind]
  rfl

theorem meets_ite {p : Prop} [Decidable p] {m' : Meaning α} (h : p → Meets strict m c Q)
    (h' : ¬ p → Meets strict m' c Q) : Meets strict (if p then m else m') c Q := by
  split
  · exact h ‹_›
  · exact h' ‹_›

/-! ### Basic actions -/

theorem meets_report {record : LogRecord} {Q : Unit → Context → Prop} :
    Meets strict (report record) c Q ↔ Q () { c with log := record :: c.log } := Iff.rfl

theorem meets_failAt {place : Location} {fault : Fault} :
    Meets strict (failAt place fault) c Q ↔ (strict → fault.kind ≠ .internal) :=
  imp_congr_right fun _ => and_iff_left nofun

theorem meets_orFail {result : Except Diagnostic α} (hok : ∀ a, result = .ok a → Q a c)
    (herror : ∀ d, result = .error d → strict → d.External) : Meets strict (orFail result) c Q := by
  cases result with
  | ok a => exact hok a rfl
  | error d => exact herror d rfl

theorem meets_here {Q : Nat → Context → Prop} : Meets strict here c Q ↔ Q c.scopes.current c := Iff.rfl

theorem meets_scope {id : Nat} {Q : Scope → Context → Prop} :
    Meets strict (scope id) c Q ↔ Q (c.scopes.scope id) c := Iff.rfl

theorem meets_instruction {kind : InstructionKind} {id : Nat} {Q : Instruction → Context → Prop} :
    Meets strict (instruction kind id) c Q ↔
      Q { kind, scope := id, frame := (c.scopes.scope id).frame } c := Iff.rfl

theorem meets_append {i : Instruction} {Q : Nat → Context → Prop} :
    Meets strict (append i) c Q ↔ Q c.stream.issued { c with stream := (c.stream.append i).1 } := Iff.rfl

end rules

/-! ### Comparisons -/

/-- An action fails exactly as a result does, and otherwise succeeds with a relation to it. -/
def Agrees {α β : Type} (m : Meaning α) (c : Context) (result : Except Diagnostic β)
    (Q : β → α → Context → Prop) : Prop :=
  match result with
  | .ok b => ∃ a c', m.run.run c = (.ok a, c') ∧ Q b a c'
  | .error d => ∃ c', m.run.run c = (.error d, c')

section comparisons

variable {α β γ δ : Type} {strict : Bool} {c : Context} {result : Except Diagnostic γ}
variable {Q : γ → α → Context → Prop} {m : Meaning α} {f : α → Meaning β}

theorem agrees_pure {a : α} {b : γ} (h : Q b a c) : Agrees (pure a) c (.ok b) Q :=
  ⟨a, c, rfl, h⟩

theorem agrees_failAt {place : Location} {fault : Fault} :
    Agrees (failAt place fault) c (.error ⟨fault, some place⟩) Q :=
  ⟨c, rfl⟩

theorem agrees_ite {p : Prop} [Decidable p] {m' : Meaning α} {result' : Except Diagnostic γ}
    (h : p → Agrees m c result Q) (h' : ¬ p → Agrees m' c result' Q) :
    Agrees (if p then m else m') c (if p then result else result') Q := by
  split
  · exact h ‹_›
  · exact h' ‹_›

theorem Agrees.mono {R : γ → α → Context → Prop} (h : Agrees m c result Q)
    (himp : ∀ b a c', Q b a c' → R b a c') : Agrees m c result R := by
  cases result with
  | ok b =>
    obtain ⟨a, c', hrun, hQ⟩ := h
    exact ⟨a, c', hrun, himp b a c' hQ⟩
  | error d => exact h

theorem Agrees.bind {g : γ → Except Diagnostic δ} {P : γ → α → Context → Prop}
    {Q : δ → β → Context → Prop} (h : Agrees m c result P)
    (hnext : ∀ b a c', P b a c' → Agrees (f a) c' (g b) Q) : Agrees (m >>= f) c (result >>= g) Q := by
  cases result with
  | ok b =>
    obtain ⟨a, c', hrun, hP⟩ := h
    have hresult := hnext b a c' hP
    unfold Agrees at hresult ⊢
    rw [run_bind, hrun]
    exact hresult
  | error d =>
    obtain ⟨c', hrun⟩ := h
    exact ⟨c', by rw [run_bind, hrun]⟩

theorem agrees_bind {a : α} {c' : Context} {Q : γ → β → Context → Prop} (hrun : m.run.run c = (.ok a, c'))
    (hnext : Agrees (f a) c' result Q) : Agrees (m >>= f) c result Q := by
  unfold Agrees at hnext ⊢
  rw [run_bind, hrun]
  exact hnext

theorem Agrees.next {b : δ} {P : δ → α → Context → Prop} {Q : γ → β → Context → Prop}
    (h : Agrees m c (.ok b) P) (hnext : ∀ a c', P b a c' → Agrees (f a) c' result Q) :
    Agrees (m >>= f) c result Q := by
  obtain ⟨a, c', hrun, hP⟩ := h
  exact agrees_bind hrun (hnext a c' hP)

theorem agrees_failAt_bind {place : Location} {fault : Fault} {Q : γ → β → Context → Prop} :
    Agrees (failAt place fault >>= f) c (.error ⟨fault, some place⟩) Q :=
  ⟨c, rfl⟩

theorem Agrees.of_run {a : α} {c' : Context} (h : Agrees m c result Q) (hrun : m.run.run c = (.ok a, c')) :
    ∃ b, result = .ok b ∧ Q b a c' := by
  cases result with
  | ok b =>
    obtain ⟨a', c'', hrun', hQ⟩ := h
    cases hrun.symm.trans hrun'
    exact ⟨b, rfl, hQ⟩
  | error d =>
    obtain ⟨c'', hrun'⟩ := h
    cases hrun.symm.trans hrun'

theorem Agrees.meets (h : Agrees m c result Q) (herror : ∀ d, result = .error d → d.External) :
    Meets strict m c fun a c' => ∃ b, result = .ok b ∧ Q b a c' := by
  unfold Meets
  cases result with
  | ok b =>
    obtain ⟨a, c', hrun, hQ⟩ := h
    rw [hrun]
    exact ⟨b, rfl, hQ⟩
  | error d =>
    obtain ⟨c', hrun⟩ := h
    rw [hrun]
    exact fun _ => herror d rfl

end comparisons

/-! ### Events -/

theorem run_act_of_not_isSpoken {event : Event} (h : event.isSpoken = false) (c : Context) :
    ∃ log, (act event).run.run c = (.ok (), { c with log }) := by
  cases event with
  | read | refused | moved => exact ⟨_, rfl⟩
  | start =>
    have hlist : ∀ (builtins : List Builtin) (log : List LogRecord), ∃ log', (builtins.forM fun builtin =>
            report (.scopeCreated builtin.name .functionHeader ScopeTree.root)).run.run
          { c with log } = (.ok (), { c with log := log' }) := by
      intro builtins
      induction builtins with
      | nil => exact fun log => ⟨log, rfl⟩
      | cons builtin builtins ih => exact fun log => ih _
    obtain ⟨log, hlog⟩ := hlist Builtin.all c.log
    refine ⟨.builtinsRegistered Builtin.all.length :: log, (run_bind ..).trans ?_⟩
    rw [hlog]
    rfl
  | _ => cases h

theorem run_of_filter_nil {events : List Event} (h : events.filter Event.isSpoken = []) (c : Context) :
    ∃ log, (events.forM act).run.run c = (.ok (), { c with log }) := by
  induction events generalizing c with
  | nil => exact ⟨c.log, rfl⟩
  | cons event events ih =>
    obtain ⟨hevent, hevents⟩ := forall_mem_cons.1 (filter_eq_nil_iff.1 h)
    obtain ⟨log, hrun⟩ := run_act_of_not_isSpoken (Bool.eq_false_iff.2 hevent) c
    obtain ⟨log', hrun'⟩ := ih (filter_eq_nil_iff.2 hevents) { c with log }
    refine ⟨log', (run_bind ..).trans ?_⟩
    rw [hrun]
    exact hrun'

theorem run_of_filter_cons {events said : List Event} {event : Event}
    (h : events.filter Event.isSpoken = event :: said) (c : Context) :
    ∃ (log : List LogRecord) (later : List Event), later.filter Event.isSpoken = said ∧
      (events.forM act).run.run c = (act event >>= fun _ => later.forM act).run.run { c with log } := by
  induction events generalizing c with
  | nil => cases h
  | cons first events ih =>
    cases hspoken : first.isSpoken with
    | true =>
      rw [filter_cons_of_pos hspoken] at h
      obtain ⟨rfl, rfl⟩ := List.cons.inj h
      exact ⟨c.log, events, rfl, rfl⟩
    | false =>
      rw [filter_cons_of_neg (by simp [hspoken])] at h
      obtain ⟨log, hrun⟩ := run_act_of_not_isSpoken hspoken c
      obtain ⟨log', later, hlater, hrun'⟩ := ih h { c with log }
      refine ⟨log', later, hlater, (run_bind ..).trans ?_⟩
      rw [hrun]
      exact hrun'

/-- The events of a phrase meet a postcondition, whatever is read among them. -/
def Tells (strict : Bool) (said : List Event) (c : Context) (Q : Context → Prop) : Prop :=
  ∀ events : List Event, events.filter Event.isSpoken = said →
    Meets strict (events.forM act) c fun _ c' => Q c'

/-- The events of a phrase agree with a result, whatever is read among them. -/
def Echoes {β : Type} (said : List Event) (c : Context) (result : Except Diagnostic β)
    (Q : β → Context → Prop) : Prop :=
  ∀ events : List Event, events.filter Event.isSpoken = said →
    Agrees (events.forM act) c result fun b _ c' => Q b c'

section events

variable {β γ : Type} {strict : Bool} {c : Context} {Q R : Context → Prop}
  {result : Except Diagnostic β} {P : β → Context → Prop}
variable {said first second : List Event}

theorem Tells.mono (h : Tells strict said c Q) (himp : ∀ c', Q c' → R c') : Tells strict said c R :=
  fun events hevents => (h events hevents).mono fun _ => himp

theorem Echoes.mono {P' : β → Context → Prop} (h : Echoes said c result P)
    (himp : ∀ b c', P b c' → P' b c') : Echoes said c result P' :=
  fun events hevents => (h events hevents).mono fun b _ => himp b

theorem tells_nil (h : ∀ log, Q { c with log }) : Tells strict [] c Q := by
  intro events hevents
  obtain ⟨log, hrun⟩ := run_of_filter_nil hevents c
  exact meets_run hrun (h log)

theorem tells_cons {event : Event}
    (h : ∀ log, Meets strict (act event) { c with log } fun _ c' => Tells strict said c' Q) :
    Tells strict (event :: said) c Q := by
  intro events hevents
  obtain ⟨log, later, hlater, hrun⟩ := run_of_filter_cons hevents c
  unfold Meets
  rw [hrun]
  exact meets_bind.2 ((h log).mono fun _ c' htells => htells later hlater)

theorem echoes_singleton {event : Event}
    (h : ∀ log, Agrees (act event) { c with log } result fun b _ c' => ∀ log, P b { c' with log }) :
    Echoes [event] c result P := by
  intro events hevents
  obtain ⟨log, later, hlater, hrun⟩ := run_of_filter_cons hevents c
  unfold Agrees
  rw [hrun, ← bind_pure result]
  refine (h log).bind fun b _ c' hP => ?_
  obtain ⟨log', hrun'⟩ := run_of_filter_nil hlater c'
  exact ⟨(), _, hrun', hP log'⟩

theorem tells_append (h : Tells strict first c fun c' => Tells strict second c' Q) :
    Tells strict (first ++ second) c Q := by
  intro events hevents
  obtain ⟨before, after, rfl, hbefore, hafter⟩ := filter_eq_append_iff.1 hevents
  rw [forM_eq_forM, forM_append]
  exact meets_bind.2 ((h before hbefore).mono fun _ c' htells => htells after hafter)

theorem echoes_append {g : β → Except Diagnostic γ} {R : γ → Context → Prop}
    (h : Echoes first c result fun b c' => Echoes second c' (g b) R) :
    Echoes (first ++ second) c (result >>= g) R := by
  intro events hevents
  obtain ⟨before, after, rfl, hbefore, hafter⟩ := filter_eq_append_iff.1 hevents
  rw [forM_eq_forM, forM_append]
  exact (h before hbefore).bind fun b _ c' hechoes => hechoes after hafter

theorem Tells.beginning (h : Tells true (first ++ second) c Q)
    (hspoken : ∀ event ∈ second, event.isSpoken) : Tells true first c fun _ => True := by
  intro events hevents
  have hwhole := h (events ++ second) (by
    rw [filter_append, hevents, filter_eq_self.2 hspoken])
  rw [forM_eq_forM, forM_append, meets_bind] at hwhole
  exact hwhole.mono fun _ _ _ => trivial

end events

end OnePass.Meaning
