import Mathlib
import RecordStore.Record.Basic

/-!
# Outcomes

An operation on sound storage has two ways to fail: it asks for a record of a size that a header
cannot state, or it meets a field that is not legible. `Yields asks damage post` holds of a run that
fails in the first way, with one of the sizes that it asks for, or in the second, where there is
damage, or has a result with `post`.
-/

namespace RecordStore

/-- The run meets a field that is not legible. -/
def Garbled {α : Type} (run : Except Fault α) : Prop := ∃ type, run = .error (.corruptField type)

lemma Garbled.ne_ok {α : Type} {run : Except Fault α} (h : Garbled run) (a : α) :
    run ≠ .ok a := by
  obtain ⟨type, rfl⟩ := h
  exact nofun

lemma Garbled.bind {α β : Type} {run : Except Fault α} (h : Garbled run)
    (next : α → Except Fault β) : Garbled (run >>= next) := by
  obtain ⟨type, rfl⟩ := h
  exact ⟨type, rfl⟩

lemma Garbled.map {α β : Type} {run : Except Fault α} (h : Garbled run) (f : α → β) :
    Garbled (f <$> run) := by
  obtain ⟨type, rfl⟩ := h
  exact ⟨type, rfl⟩

/-- The run has a result as described, asks for a record that is too large for its header, or meets
a field that is not legible. -/
inductive Yields {α : Type} (asks : Nat → Prop) (damage : Prop) (post : α → Prop) :
    Except Fault α → Prop
  | ok {a : α} (h : post a) : Yields asks damage post (.ok a)
  | tooLarge {size : Nat} (hasks : asks size) (h : 256 ^ Record.headerBytes ≤ size) :
      Yields asks damage post (.error (.recordTooLarge size))
  | garbled {type : ValueType} (h : damage) : Yields asks damage post (.error (.corruptField type))

namespace Yields

variable {α β : Type} {asks : Nat → Prop} {damage : Prop} {run : Except Fault α} {post : α → Prop}

lemma of_eq {a : α} (hrun : run = .ok a) (h : post a) : Yields asks damage post run := by
  subst hrun
  exact .ok h

lemma of_exists (h : ∃ a, run = .ok a ∧ post a) : Yields asks damage post run := by
  obtain ⟨a, hrun, ha⟩ := h
  exact .of_eq hrun ha

lemma of_garbled (h : Garbled run) (hdamage : damage) :
    Yields asks damage post run := by
  obtain ⟨type, rfl⟩ := h
  exact .garbled hdamage

lemma mono {post' : α → Prop} (h : Yields asks damage post run) (himp : ∀ a, post a → post' a) :
    Yields asks damage post' run := by
  cases h with
  | ok h => exact .ok (himp _ h)
  | tooLarge hasks h => exact .tooLarge hasks h
  | garbled h => exact .garbled h

/-- More sizes may be asked for, and there may be more damage. -/
lemma widen {asks' : Nat → Prop} {damage' : Prop} (h : Yields asks damage post run)
    (himp : ∀ size, asks size → asks' size) (hdamage : damage → damage') :
    Yields asks' damage' post run := by
  cases h with
  | ok h => exact .ok h
  | tooLarge hasks h => exact .tooLarge (himp _ hasks) h
  | garbled h => exact .garbled (hdamage h)

lemma bind {next : α → Except Fault β} {post' : β → Prop} (h : Yields asks damage post run)
    (hnext : ∀ a, post a → Yields asks damage post' (next a)) :
    Yields asks damage post' (run >>= next) := by
  cases h with
  | ok h => exact hnext _ h
  | tooLarge hasks h => exact .tooLarge hasks h
  | garbled h => exact .garbled h

lemma map {f : α → β} {post' : β → Prop} (h : Yields asks damage post run)
    (hf : ∀ a, post a → post' (f a)) : Yields asks damage post' (f <$> run) := by
  cases h with
  | ok h => exact .ok (hf _ h)
  | tooLarge hasks h => exact .tooLarge hasks h
  | garbled h => exact .garbled h

/-- A header cannot state a size that is too large, and this is how it fails. -/
lemma header_bind {size : Nat} {next : Bytes → Except Fault α}
    (hasks : 256 ^ Record.headerBytes ≤ size → asks size)
    (hnext : size < 256 ^ Record.headerBytes →
      Yields asks damage post (next (LittleEndian.encode Record.headerBytes size))) :
    Yields asks damage post (Record.header size >>= next) := by
  rw [Record.header]
  split_ifs with hsmall
  · exact hnext hsmall
  · exact .tooLarge (hasks (Nat.not_lt.mp hsmall)) (Nat.not_lt.mp hsmall)

/-- The three ways in which a run can end. -/
lemma ok_or_fails (h : Yields asks damage post run) :
    (∃ a, run = .ok a ∧ post a) ∨
      (∃ size, asks size ∧ 256 ^ Record.headerBytes ≤ size ∧
        run = .error (.recordTooLarge size)) ∨
      damage ∧ Garbled run := by
  cases h with
  | ok h => exact .inl ⟨_, rfl, h⟩
  | tooLarge hasks h => exact .inr (.inl ⟨_, hasks, h, rfl⟩)
  | garbled h => exact .inr (.inr ⟨h, _, rfl⟩)

/-- Without damage there are two ways in which a run can end. -/
lemma ok_or_tooLarge (h : Yields asks damage post run) (hsafe : ¬ damage) :
    (∃ a, run = .ok a ∧ post a) ∨
      ∃ size, asks size ∧ 256 ^ Record.headerBytes ≤ size ∧
        run = .error (.recordTooLarge size) := by
  cases h with
  | ok h => exact .inl ⟨_, rfl, h⟩
  | tooLarge hasks h => exact .inr ⟨_, hasks, h, rfl⟩
  | garbled h => exact absurd h hsafe

/-- What a run that succeeded has. -/
lemma post_of_ok {a : α} (h : Yields asks damage post run) (hrun : run = .ok a) : post a := by
  subst hrun
  cases h with
  | ok h => exact h

end Yields

/-! ### Lists of runs -/

lemma ok_bind {ε α β : Type} (a : α) (f : α → Except ε β) : (Except.ok a >>= f) = f a := rfl

lemma exists_of_map_ok {ε α β : Type} {run : Except ε α} {f : α → β} {b : β}
    (h : f <$> run = .ok b) : ∃ a, run = .ok a ∧ f a = b := by
  cases run with
  | error e => cases h
  | ok a =>
    cases h
    exact ⟨a, rfl, rfl⟩

/-- The two halves of a run that succeeded. -/
lemma exists_of_bind_ok {ε α β : Type} {run : Except ε α} {next : α → Except ε β} {b : β}
    (h : run >>= next = .ok b) : ∃ a, run = .ok a ∧ next a = .ok b := by
  cases run with
  | error e => cases h
  | ok a => exact ⟨a, rfl, h⟩

lemma mapM_ok {ε α β : Type} {f : α → Except ε β} {g : α → β} {l : List α}
    (h : ∀ a ∈ l, f a = .ok (g a)) : l.mapM f = .ok (l.map g) := by
  induction l with
  | nil => rfl
  | cons a l ih =>
    obtain ⟨ha, hl⟩ := List.forall_mem_cons.mp h
    rw [List.mapM_cons, ha, ih hl]
    rfl

/-- Runs that each have a result have them one by one. -/
lemma mapM_of_map_eq {ε α β : Type} {f : α → Except ε β} {l : List α} {results : List β}
    (h : l.map f = results.map .ok) : l.mapM f = .ok results := by
  induction l generalizing results with
  | nil =>
    obtain rfl := List.map_eq_nil_iff.mp h.symm
    rfl
  | cons a l ih =>
    cases results with
    | nil => cases h
    | cons b results =>
      obtain ⟨ha, hl⟩ := List.cons.inj h
      rw [List.mapM_cons, ha, ih hl]
      rfl

/-- What is done to the result of each run is done to each result. -/
lemma mapM_pure {ε α β γ : Type} (f : α → Except ε β) (g : β → γ) (l : List α) :
    (l.mapM fun a => do return g (← f a)) = List.map g <$> l.mapM f := by
  induction l with
  | nil => rfl
  | cons a l ih =>
    rw [List.mapM_cons, List.mapM_cons, ih]
    cases f a with
    | error e => rfl
    | ok b => cases l.mapM f <;> rfl

/-- Where each run of a list has a result or is garbled, the list is garbled as one of them is. -/
lemma mapM_garbled {α β : Type} {f : α → Except Fault β} {l : List α}
    (h : ∀ a ∈ l, (∃ b, f a = .ok b) ∨ Garbled (f a)) (hbad : ∃ a ∈ l, Garbled (f a)) :
    Garbled (l.mapM f) := by
  induction l with
  | nil =>
    obtain ⟨a, ha, -⟩ := hbad
    cases ha
  | cons a l ih =>
    obtain ⟨ha, hl⟩ := List.forall_mem_cons.mp h
    rw [List.mapM_cons]
    rcases ha with ⟨b, hb⟩ | hgarbled
    · rcases (List.exists_mem_cons_iff _ a l).mp hbad with ⟨type, hrun⟩ | hbad
      · rw [hb] at hrun
        cases hrun
      · rw [hb]
        exact (ih hl hbad).bind _
    · exact hgarbled.bind _

/-- Where each run of a list has its result, unless it is garbled, so has the list. -/
lemma mapM_ok_or_garbled {α β : Type} {f : α → Except Fault β} {g : α → β} {bad : Prop}
    {l : List α} (h : ∀ a ∈ l, f a = .ok (g a) ∨ bad ∧ Garbled (f a)) :
    l.mapM f = .ok (l.map g) ∨ bad ∧ Garbled (l.mapM f) := by
  by_cases hall : ∀ a ∈ l, f a = .ok (g a)
  · exact .inl (mapM_ok hall)
  · obtain ⟨a, ha, hrun⟩ : ∃ a ∈ l, f a ≠ .ok (g a) := by simpa using hall
    have hgarbled := (h a ha).resolve_left hrun
    refine .inr ⟨hgarbled.1, mapM_garbled ?_ ⟨a, ha, hgarbled.2⟩⟩
    exact fun a ha => (h a ha).imp (fun hok => ⟨_, hok⟩) And.right

lemma forM_ok {ε α : Type} {f : α → Except ε PUnit} {l : List α} (h : ∀ a ∈ l, f a = .ok ⟨⟩) :
    l.forM f = .ok ⟨⟩ := by
  induction l with
  | nil => rfl
  | cons a l ih =>
    obtain ⟨ha, hl⟩ := List.forall_mem_cons.mp h
    rw [List.forM_eq_forM, List.forM_cons, ha]
    exact ih hl

lemma forM_garbled {α : Type} {f : α → Except Fault PUnit} {l : List α}
    (h : ∀ a ∈ l, f a = .ok ⟨⟩ ∨ Garbled (f a)) (hbad : ∃ a ∈ l, Garbled (f a)) :
    Garbled (l.forM f) := by
  induction l with
  | nil =>
    obtain ⟨a, ha, -⟩ := hbad
    cases ha
  | cons a l ih =>
    obtain ⟨ha, hl⟩ := List.forall_mem_cons.mp h
    rw [List.forM_eq_forM, List.forM_cons]
    rcases ha with hok | hgarbled
    · rcases (List.exists_mem_cons_iff _ a l).mp hbad with ⟨type, hrun⟩ | hbad
      · rw [hok] at hrun
        cases hrun
      · rw [hok]
        exact ih hl hbad
    · exact hgarbled.bind _

end RecordStore
