/-
  The keys of the touch controller.

  A key array report has the state of all keys.  The observers of a key are told
  about its changes only: `keys_shown` says that they are told all of them, in
  order, however many reports were lost or damaged in between.
-/
import Mathlib.Data.List.FinRange
import MetaHipos.Rafi.Contacts

namespace MetaHipos.Rafi

open LittleEndian

/-! ## Changes of a signal -/

/-- The changes of a signal that was `b` before. -/
def changes (b : Bool) : List Bool → List Bool
  | [] => []
  | x :: xs => if x = b then changes b xs else x :: changes x xs

/-- What a signal is after it was `b`. -/
def lastValue (b : Bool) (xs : List Bool) : Bool := xs.getLastD b

theorem lastValue_cons (b x : Bool) (xs : List Bool) : lastValue b (x :: xs) = lastValue x xs := by
  rw [lastValue, List.getLastD_cons, lastValue]

theorem lastValue_append (b : Bool) (xs ys : List Bool) :
    lastValue b (xs ++ ys) = lastValue (lastValue b xs) ys := by
  induction xs generalizing b with
  | nil => rfl
  | cons x xs ih => rw [List.cons_append, lastValue_cons, lastValue_cons, ih]

theorem changes_append (b : Bool) (xs ys : List Bool) :
    changes b (xs ++ ys) = changes b xs ++ changes (lastValue b xs) ys := by
  induction xs generalizing b with
  | nil => rfl
  | cons x xs ih =>
    rw [List.cons_append, changes, changes, lastValue_cons]
    split_ifs with h
    · subst h
      exact ih x
    · rw [ih, List.cons_append]

/-- The changes alternate, and end with the value of the signal. -/
theorem changes_alternate (b : Bool) (xs : List Bool) :
    (b :: changes b xs).IsChain (· ≠ ·) ∧ (changes b xs).getLastD b = lastValue b xs := by
  induction xs generalizing b with
  | nil => exact ⟨List.IsChain.singleton b, rfl⟩
  | cons x xs ih =>
    rw [changes, lastValue_cons]
    split_ifs with h
    · subst h
      exact ih x
    · obtain ⟨hchain, hlast⟩ := ih x
      exact ⟨List.IsChain.cons_cons (Ne.symm h) hchain, by rwa [List.getLastD_cons]⟩

/-! ## Reports -/

/-- The states of a key that were reported. -/
def keyBits (i : Fin 32) (rcvs : List (Except Errno (List Byte))) : List Bool :=
  rcvs.filterMap fun rcv =>
    match Device.getReport rcv with
    | .ok ⟨_, .keyArray k⟩ => some (k.keyTouched i)
    | _ => none

/-- The observers of a key, after they were told about changes. -/
def told (obs : List KeyInput) (values : List Bool) : List KeyInput :=
  obs.map fun o => ⟨o.events ++ values⟩

theorem told_told (obs : List KeyInput) (vs vs' : List Bool) :
    told (told obs vs) vs' = told obs (vs ++ vs') := by
  simp [told, Function.comp_def]

@[simp] theorem told_nil (obs : List KeyInput) : told obs [] = obs := by simp [told]

section
variable {d : Device}

/-- A key is handled if it has changed. -/
theorem handleKey_eq (d : Device) (touched : Fin 32 → Bool) (i : Fin 32) :
    (d.handleKey touched i).keyTouched = Function.update d.keyTouched i (touched i) ∧
      (d.handleKey touched i).keyObs =
        Function.update d.keyObs i (told (d.keyObs i) (changes (d.keyTouched i) [touched i])) := by
  by_cases he : touched i = d.keyTouched i
  · have hd : d.handleKey touched i = d := by
      rw [Device.handleKey, he]
      cases hold : d.keyTouched i <;> simp
    rw [hd, he, changes, if_pos rfl, changes, told_nil, Function.update_eq_self,
      Function.update_eq_self]
    exact ⟨rfl, rfl⟩
  · rw [Device.handleKey]
    cases hnew : touched i <;> cases hold : d.keyTouched i
    · exact absurd (hnew.trans hold.symm) he
    · exact ⟨rfl, rfl⟩
    · exact ⟨rfl, rfl⟩
    · exact absurd (hnew.trans hold.symm) he

/-- The loop over the keys, each of which is handled once. -/
theorem handleKeys (touched : Fin 32 → Bool) {l : List (Fin 32)} (hl : l.Nodup) (i : Fin 32) :
    (l.foldl (Device.handleKey touched) d).keyTouched i =
        (if i ∈ l then touched i else d.keyTouched i) ∧
      (l.foldl (Device.handleKey touched) d).keyObs i =
        told (d.keyObs i) (if i ∈ l then changes (d.keyTouched i) [touched i] else []) := by
  induction l generalizing d with
  | nil => simp
  | cons j l ih =>
    obtain ⟨hj, hl⟩ := List.nodup_cons.1 hl
    obtain ⟨htouched, hobs⟩ := handleKey_eq d touched j
    obtain ⟨ht, ho⟩ := ih (d := d.handleKey touched j) hl
    rw [List.foldl_cons, ht, ho, htouched, hobs]
    by_cases hij : i = j
    · subst hij
      simp [hj]
    · simp [hij]

theorem handleKeyArrayReport_keys (d : Device) (k : KeyArray) (i : Fin 32) :
    (d.handleKeyArrayReport k).keyTouched i = k.keyTouched i ∧
      (d.handleKeyArrayReport k).keyObs i =
        told (d.keyObs i) (changes (d.keyTouched i) [k.keyTouched i]) := by
  obtain ⟨htouched, hobs⟩ := handleKeys k.keyTouched (List.nodup_finRange 32) i
  rw [if_pos (List.mem_finRange i)] at htouched hobs
  exact ⟨htouched, hobs⟩

/-- Fingers leave the keys alone. -/
theorem handleTsDataReport_keys {d' : Device} {ts : TsData}
    (h : d.handleTsDataReport ts = some (.ok d')) :
    d'.keyTouched = d.keyTouched ∧ d'.keyObs = d.keyObs := by
  have hpress : ∀ x y, d.bcEventTsPress ts.fingerId x y = some d' →
      d'.keyTouched = d.keyTouched ∧ d'.keyObs = d.keyObs := by
    intro x y hp
    rw [Device.bcEventTsPress] at hp
    split_ifs at hp
    · obtain ⟨r, -, hr⟩ := Option.bind_eq_some_iff.1 hp
      cases hr
      exact ⟨rfl, rfl⟩
    · cases hp
      exact ⟨rfl, rfl⟩
  have hrelease : d.bcEventTsRelease ts.fingerId = some d' →
      d'.keyTouched = d.keyTouched ∧ d'.keyObs = d.keyObs := by
    intro hp
    rw [Device.bcEventTsRelease] at hp
    split_ifs at hp
    · obtain ⟨r, -, hr⟩ := Option.bind_eq_some_iff.1 hp
      cases hr
      exact ⟨rfl, rfl⟩
    · cases hp
      exact ⟨rfl, rfl⟩
  rw [Device.handleTsDataReport] at h
  split_ifs at h
  · cases h
  · obtain ⟨d₁, hd₁, hd⟩ := Option.map_eq_some_iff.1 h
    cases hd
    exact hpress _ _ hd₁
  · obtain ⟨d₁, hd₁, hd⟩ := Option.map_eq_some_iff.1 h
    cases hd
    exact hrelease hd₁

/-- What an interrupt does to a key. -/
theorem workFn_keys {d' : Device} {rcv : Except Errno (List Byte)} {p : Option Payload}
    (h : d.workFn rcv = some (d', p)) (i : Fin 32) :
    d'.keyTouched i = lastValue (d.keyTouched i) (keyBits i [rcv]) ∧
      d'.keyObs i = told (d.keyObs i) (changes (d.keyTouched i) (keyBits i [rcv])) := by
  cases hget : Device.getReport rcv with
  | error e =>
    have hbits : keyBits i [rcv] = [] := by simp [keyBits, hget]
    rw [Device.workFn, hget] at h
    cases h
    rw [hbits, changes, told_nil]
    exact ⟨rfl, rfl⟩
  | ok report =>
    obtain ⟨n, q⟩ := report
    obtain rfl : n = 0 := remainingFrames_eq_zero hget
    have hwork : d.workFn rcv = d.handlePayload q := by
      rw [Device.workFn, hget]
      exact if_neg (by simp)
    rw [hwork] at h
    cases q with
    | keyArray k =>
      have hbits : keyBits i [rcv] = [k.keyTouched i] := by simp [keyBits, hget]
      cases h
      rw [hbits]
      exact handleKeyArrayReport_keys d k i
    | tsData ts =>
      have hbits : keyBits i [rcv] = [] := by simp [keyBits, hget]
      rw [hbits, changes, told_nil]
      obtain ⟨r, hr, hd⟩ := Option.map_eq_some_iff.1 h
      cases r with
      | error e =>
        cases hd
        exact ⟨rfl, rfl⟩
      | ok d₁ =>
        cases hd
        obtain ⟨ht, ho⟩ := handleTsDataReport_keys hr
        exact ⟨congrFun ht i, congrFun ho i⟩
    | swVersion v =>
      have hbits : keyBits i [rcv] = [] := by simp [keyBits, hget]
      cases h
      rw [hbits, changes, told_nil]
      exact ⟨rfl, rfl⟩
    | status s =>
      have hbits : keyBits i [rcv] = [] := by simp [keyBits, hget]
      cases h
      rw [hbits, changes, told_nil]
      exact ⟨rfl, rfl⟩

/-- What any number of interrupts does to a key. -/
theorem run_keys {d' : Device} {rcvs : List (Except Errno (List Byte))}
    (h : d.run rcvs = some d') (i : Fin 32) :
    d'.keyTouched i = lastValue (d.keyTouched i) (keyBits i rcvs) ∧
      d'.keyObs i = told (d.keyObs i) (changes (d.keyTouched i) (keyBits i rcvs)) := by
  induction rcvs generalizing d with
  | nil =>
    cases h
    exact ⟨rfl, (told_nil _).symm⟩
  | cons rcv rcvs ih =>
    obtain ⟨⟨d₁, p⟩, hwork, hrun⟩ := Option.bind_eq_some_iff.1 h
    obtain ⟨ht, ho⟩ := workFn_keys hwork i
    obtain ⟨ht', ho'⟩ := ih hrun
    have hbits : keyBits i (rcv :: rcvs) = keyBits i [rcv] ++ keyBits i rcvs := by
      rw [keyBits, keyBits, keyBits, ← List.filterMap_append, List.singleton_append]
    rw [ht', ho', ht, ho, told_told, hbits, changes_append, lastValue_append]
    exact ⟨rfl, rfl⟩

end

/-- **Keys are shown by their changes.**  After any interrupts, the observers of
    a key were told exactly the changes of its state in the reports, which
    alternate, the first one being a touch. -/
theorem keys_shown (keyObs : Fin 32 → List KeyInput) (rcvs : List (Except Errno (List Byte))) :
    ∃ d, (Device.probe keyObs).run rcvs = some d ∧ ∀ i,
      d.keyObs i = told (keyObs i) (changes false (keyBits i rcvs)) ∧
      d.keyTouched i = lastValue false (keyBits i rcvs) ∧
      (false :: changes false (keyBits i rcvs)).IsChain (· ≠ ·) ∧
      (changes false (keyBits i rcvs)).getLastD false = d.keyTouched i := by
  obtain ⟨d, -, -, hrun, -⟩ := (agrees_probe keyObs).run rcvs
  refine ⟨d, hrun, fun i => ?_⟩
  obtain ⟨ht, ho⟩ := run_keys hrun i
  obtain ⟨hchain, hlast⟩ := changes_alternate false (keyBits i rcvs)
  exact ⟨ho, ht, hchain, hlast.trans ht.symm⟩

end MetaHipos.Rafi
