/-
  What is reported of the fingers.

  The events for the input subsystem come in packets, each with a sync at its
  end.  `Packet` is what the driver puts into one of them, `Contacts` is what the
  reports of the touch controller mean, and `touch_reported` connects the two:
  after any frames, good or bad, the events are whole packets, and these say
  which fingers are on the glass and where; no array is accessed out of its
  bounds on the way.
-/
import Mathlib.Data.Bool.Basic
import Mathlib.Data.List.FinRange
import MetaHipos.Rafi.Touch

namespace MetaHipos.Rafi

open LittleEndian

/-! ## Packets -/

/-- The positions in a packet: of the only finger, or of a number of contacts. -/
inductive Position where
  | single (x y : ℕ)
  | multi (contacts : List (ℕ × ℕ))
deriving DecidableEq, Repr

/-- A packet: the value of `BTN_TOUCH` and the positions, where it has them. -/
structure Packet where
  button : Option Bool
  position : Option Position
deriving DecidableEq, Repr

/-- The events of a contact. -/
def contactEvents (c : ℕ × ℕ) : List InputEvent :=
  [.absMtPositionX c.1, .absMtPositionY c.2, .mtSync]

namespace Position

/-- The events of the positions; no contact at all is an empty one. -/
def events : Position → List InputEvent
  | single x y => [.absX x, .absY y]
  | multi contacts => if contacts = [] then [.mtSync] else contacts.flatMap contactEvents

/-- The positions that are in it. -/
def points : Position → List (ℕ × ℕ)
  | single x y => [(x, y)]
  | multi contacts => contacts

end Position

namespace Packet

/-- The events of a packet but its sync. -/
def body (p : Packet) : List InputEvent :=
  p.button.toList.map .key ++ (p.position.map Position.events).getD []

/-- The events of a packet. -/
def events (p : Packet) : List InputEvent := p.body ++ [.sync]

end Packet

/-- The last value of the button in some packets. -/
def touched (ps : List Packet) : Bool := (ps.filterMap Packet.button).getLastD false

/-- The last positions in some packets. -/
def lastPoints (ps : List Packet) : List (ℕ × ℕ) :=
  ((ps.filterMap Packet.position).map Position.points).getLastD []

/-- The fingers that some packets report as down: none after the button went up,
    else those at the last positions. -/
def reported (ps : List Packet) : List (ℕ × ℕ) := if touched ps then lastPoints ps else []

section
variable {ps : List Packet} {button : Option Bool} {position : Option Position}

@[simp] theorem touched_append_some (b : Bool) : touched (ps ++ [⟨some b, position⟩]) = b := by
  simp [touched]

@[simp] theorem touched_append_none : touched (ps ++ [⟨none, position⟩]) = touched ps := by
  simp [touched]

@[simp] theorem lastPoints_append_some (p : Position) :
    lastPoints (ps ++ [⟨button, some p⟩]) = p.points := by
  simp [lastPoints]

theorem contacts_injective {cs ds : List (ℕ × ℕ)}
    (h : cs.flatMap contactEvents = ds.flatMap contactEvents) : cs = ds := by
  induction cs generalizing ds with
  | nil =>
    cases ds with
    | nil => rfl
    | cons d ds => simp [contactEvents] at h
  | cons c cs ih =>
    cases ds with
    | nil => simp [contactEvents] at h
    | cons d ds =>
      simp only [List.flatMap_cons, contactEvents, List.cons_append, List.nil_append,
        List.cons.injEq, InputEvent.absMtPositionX.injEq, InputEvent.absMtPositionY.injEq,
        true_and] at h
      rw [Prod.ext h.1 h.2.1, ih h.2.2]

theorem Position.events_injective {p q : Position} (h : p.events = q.events) : p = q := by
  cases p with
  | single x y =>
    cases q with
    | single x' y' => simpa [events] using h
    | multi ds => cases ds <;> simp [events, contactEvents] at h
  | multi cs =>
    cases q with
    | single x' y' => cases cs <;> simp [events, contactEvents] at h
    | multi ds =>
      congr 1
      cases cs <;> cases ds <;> simp [events, contactEvents] at h ⊢
      exact ⟨Prod.ext h.1 h.2.1, contacts_injective h.2.2⟩

theorem Position.events_ne_nil (p : Position) : p.events ≠ [] := by
  cases p with
  | single x y => simp [events]
  | multi cs => cases cs <;> simp [events, contactEvents]

/-- The button and the end of a packet are no part of its positions. -/
theorem Position.mem_events {p : Position} {e : InputEvent} (he : e ∈ p.events) :
    (∀ b, e ≠ .key b) ∧ e ≠ .sync := by
  cases p with
  | single x y =>
    simp only [events, List.mem_cons, List.not_mem_nil, or_false] at he
    rcases he with rfl | rfl <;> simp
  | multi cs =>
    rw [events] at he
    split_ifs at he
    · rw [List.mem_singleton.1 he]
      simp
    · obtain ⟨c, -, he⟩ := List.mem_flatMap.1 he
      simp only [contactEvents, List.mem_cons, List.not_mem_nil, or_false] at he
      rcases he with rfl | rfl | rfl <;> simp

namespace Packet

/-- The events of the positions, if there are any. -/
theorem positions_injective {p q : Option Position}
    (h : (p.map Position.events).getD [] = (q.map Position.events).getD []) : p = q := by
  cases p with
  | none =>
    cases q with
    | none => rfl
    | some q => exact absurd h.symm q.events_ne_nil
  | some p =>
    cases q with
    | none => exact absurd h p.events_ne_nil
    | some q => exact congrArg some (Position.events_injective h)

/-- Positions do not begin with the button. -/
theorem positions_ne_key {p : Option Position} {b : Bool} {es : List InputEvent} :
    (p.map Position.events).getD [] ≠ .key b :: es := by
  intro h
  cases p with
  | none => cases h
  | some p => exact (Position.mem_events (h ▸ List.mem_cons_self)).1 b rfl

theorem body_injective {p q : Packet} (h : p.body = q.body) : p = q := by
  obtain ⟨b, position⟩ := p
  obtain ⟨b', position'⟩ := q
  cases b with
  | none =>
    cases b' with
    | none =>
      have hposition : position = position' := positions_injective h
      rw [hposition]
    | some v => exact absurd h positions_ne_key
  | some v =>
    cases b' with
    | none => exact absurd h.symm positions_ne_key
    | some v' =>
      obtain ⟨hv, hrest⟩ := List.cons.inj h
      have hposition : position = position' := positions_injective hrest
      rw [InputEvent.key.inj hv, hposition]

theorem sync_notMem_body (p : Packet) : ∀ e ∈ p.body, e ≠ .sync := by
  intro e he
  rw [body, List.mem_append] at he
  rcases he with he | he
  · obtain ⟨b, -, rfl⟩ := List.mem_map.1 he
    simp
  · cases hp : p.position with
    | none => simp [hp] at he
    | some position => exact (Position.mem_events (by simpa [hp] using he)).2

/-- What comes up to the first sync. -/
theorem takeWhile_events (p : Packet) (es : List InputEvent) :
    (p.events ++ es).takeWhile (· ≠ .sync) = p.body := by
  rw [events, List.append_assoc, List.takeWhile_append_of_pos (by simpa using p.sync_notMem_body)]
  simp

end Packet

/-- Events are made of packets in one way only. -/
theorem packets_injective {ps qs : List Packet}
    (h : ps.flatMap Packet.events = qs.flatMap Packet.events) : ps = qs := by
  induction ps generalizing qs with
  | nil =>
    cases qs with
    | nil => rfl
    | cons q qs => simp [Packet.events] at h
  | cons p ps ih =>
    cases qs with
    | nil => simp [Packet.events] at h
    | cons q qs =>
      rw [List.flatMap_cons, List.flatMap_cons] at h
      have hbody := congrArg (List.takeWhile (· ≠ .sync)) h
      rw [Packet.takeWhile_events, Packet.takeWhile_events] at hbody
      obtain rfl := Packet.body_injective hbody
      rw [ih (List.append_cancel_left h)]

end

/-! ## The input device -/

/-- The position of a finger. -/
def pos (f : TsFinger) : ℕ × ℕ := (f.x, f.y)

namespace TsInput

/-- The state goes with the fingers: a single touch is one finger, and a multi
    touch at least one. -/
def StateOk (t : TsInput) : Prop :=
  match t.state with
  | .untouched => ∀ f, (t.fingers f).down = false
  | .singleTouch => ∃ f, (t.fingers f).down = true ∧ ∀ g, g ≠ f → (t.fingers g).down = false
  | .multiTouch => ∃ f, (t.fingers f).down = true

/-- The state is right, and the packets so far have reported it; there was no
    message. -/
structure Good (t : TsInput) (ps : List Packet) : Prop where
  state : t.StateOk
  perrors : t.perrors = []
  events : t.events = ps.flatMap Packet.events
  touched : touched ps = decide (t.state ≠ .untouched)
  points : t.state ≠ .untouched → lastPoints ps = t.downFingers.map pos

theorem good_ctor : ctor.Good [] where
  state := fun _ => rfl
  perrors := rfl
  events := rfl
  touched := rfl
  points := fun h => absurd rfl h

section
variable {t : TsInput} {ps : List Packet} {f : Fin 2} {x y : ℕ}

@[simp] theorem fingers_emitButtonDown : t.emitButtonDown.fingers = t.fingers := rfl

@[simp] theorem fingers_emitButtonUp : t.emitButtonUp.fingers = t.fingers := rfl

@[simp] theorem fingers_emitSingleTouch : (t.emitSingleTouch x y).fingers = t.fingers := rfl

@[simp] theorem fingers_emitMultiTouch : t.emitMultiTouch.fingers = t.fingers := rfl

@[simp] theorem fingers_setState (s : TsInputState) : (t.setState s).fingers = t.fingers := rfl

@[simp] theorem fingers_setFinger (v : TsFinger) :
    (t.setFinger f v).fingers = Function.update t.fingers f v := rfl

theorem checkFinger_eq (f : Fin 2) : t.checkFinger f = t := if_neg (by omega)

/-- The only finger that is down. -/
theorem downFingers_single (hf : (t.fingers f).down = true)
    (hg : ∀ g, g ≠ f → (t.fingers g).down = false) : t.downFingers = [t.fingers f] := by
  obtain rfl | rfl : f = 0 ∨ f = 1 := by omega
  · have := hg 1 (by decide)
    simp [downFingers, List.finRange_succ, hf, this]
  · have := hg 0 (by decide)
    simp [downFingers, List.finRange_succ, hf, this]

theorem downFingers_eq_nil : t.downFingers = [] ↔ ∀ f, (t.fingers f).down = false := by
  rw [downFingers, List.filter_eq_nil_iff]
  simp only [List.mem_map, List.mem_finRange, true_and, forall_exists_index,
    forall_apply_eq_imp_iff, Bool.not_eq_true]

theorem events_emitMultiTouch (t : TsInput) : t.emitMultiTouch.events =
    t.events ++ Packet.events ⟨none, some (.multi (t.downFingers.map pos))⟩ := by
  simp [emitMultiTouch, emit, Packet.events, Packet.body, Position.events, List.flatMap_map,
    contactEvents, pos]

/-- The button that goes down is in the packet of the positions. -/
theorem events_emitButtonDown_multi (t : TsInput) : t.emitButtonDown.emitMultiTouch.events =
    t.events ++ Packet.events ⟨some true, some (.multi (t.downFingers.map pos))⟩ := by
  rw [events_emitMultiTouch]
  simp [emitButtonDown, emit, Packet.events, Packet.body, downFingers]

/-- One more packet. -/
theorem Good.events_append (h : t.Good ps) (p : Packet) :
    t.events ++ p.events = (ps ++ [p]).flatMap Packet.events := by
  rw [h.events, List.flatMap_append, List.flatMap_singleton]

theorem getFingerState_eq_untouched :
    t.getFingerState = .untouched ↔ ∀ f, (t.fingers f).down = false := by
  rw [← downFingers_eq_nil, ← List.length_eq_zero_iff, getFingerState]
  split_ifs with h2 h1
  · exact iff_of_false (by simp) (by omega)
  · exact iff_of_false (by simp) (by omega)
  · exact iff_of_true rfl (by omega)

/-- A finger that touches the glass. -/
theorem virtDown_spec (h : t.Good ps) (hf : (t.fingers f).down = false) :
    ∃ t' p, t.virtDown f x y = some t' ∧ t'.Good (ps ++ [p]) ∧
      t'.fingers = Function.update t.fingers f ⟨true, x, y⟩ := by
  have hmulti : ((t.setFinger f ⟨true, x, y⟩).emitButtonDown.emitMultiTouch.setState
      .multiTouch).Good (ps ++ [⟨some true, some (.multi
        ((t.setFinger f ⟨true, x, y⟩).downFingers.map pos))⟩]) := by
    refine ⟨⟨f, by simp⟩, h.perrors, ?_, touched_append_some true, fun _ => ?_⟩
    · exact (events_emitButtonDown_multi _).trans (h.events_append _)
    · exact lastPoints_append_some _
  rw [virtDown, checkFinger_eq, dif_pos f.isLt]
  cases hstate : t.state with
  | untouched =>
    have hall : ∀ g, (t.fingers g).down = false := by
      have := h.state
      rwa [StateOk, hstate] at this
    have hsingle : (((t.setFinger f ⟨true, x, y⟩).emitButtonDown).emitSingleTouch x y).downFingers =
        [⟨true, x, y⟩] := by
      rw [downFingers_single (f := f) (by simp) fun g hg => by simp [hg, hall]]
      simp
    refine ⟨_, ⟨some true, some (.single x y)⟩, rfl,
      ⟨⟨f, by simp, fun g hg => by simp [hg, hall]⟩, h.perrors, ?_, touched_append_some true,
        fun _ => ?_⟩, rfl⟩
    · refine Eq.trans ?_ (h.events_append _)
      simp [emitButtonDown, emitSingleTouch, emit, setFinger, setState, Packet.events, Packet.body,
        Position.events]
    · exact (lastPoints_append_some _).trans (congrArg (List.map pos) hsingle).symm
  | singleTouch => exact ⟨_, _, if_pos hf, hmulti, rfl⟩
  | multiTouch => exact ⟨_, _, if_pos hf, hmulti, rfl⟩

/-- A finger that moves. -/
theorem virtMove_spec (h : t.Good ps) (hf : (t.fingers f).down = true) :
    ∃ t' p, t.virtMove f x y = some t' ∧ t'.Good (ps ++ [p]) ∧
      t'.fingers = Function.update t.fingers f ⟨true, x, y⟩ := by
  have hok := h.state
  have htouched := h.touched
  rw [virtMove, checkFinger_eq]
  cases hstate : t.state with
  | untouched =>
    rw [StateOk, hstate] at hok
    rw [hok f] at hf
    cases hf
  | singleTouch =>
    rw [StateOk, hstate] at hok
    obtain ⟨g, hg, hother⟩ := hok
    have hgf : f = g := by
      by_contra hne
      rw [hother f hne] at hf
      cases hf
    subst hgf
    have hothers : ∀ g, g ≠ f → ((t.setFinger f ⟨true, x, y⟩).emitSingleTouch x y |>.fingers g).down
        = false := by
      intro g hg
      simp [hg, hother]
    have hs : ((t.setFinger f ⟨true, x, y⟩).emitSingleTouch x y).state = .singleTouch := hstate
    refine ⟨_, ⟨none, some (.single x y)⟩, (dif_pos f.isLt).trans (if_pos hf),
      ⟨?_, h.perrors, h.events_append ⟨none, some (.single x y)⟩, ?_, fun _ => ?_⟩, rfl⟩
    · rw [StateOk, hs]
      exact ⟨f, by simp, hothers⟩
    · exact touched_append_none.trans htouched
    · rw [lastPoints_append_some, downFingers_single (f := f) (by simp) hothers]
      simp [pos, Position.points]
  | multiTouch =>
    have hs : (t.setFinger f ⟨true, x, y⟩).emitMultiTouch.state = .multiTouch := hstate
    refine ⟨_, _, (dif_pos f.isLt).trans (if_pos hf),
      ⟨?_, h.perrors, (events_emitMultiTouch _).trans (h.events_append _), ?_, fun _ => ?_⟩, rfl⟩
    · rw [StateOk, hs]
      exact ⟨f, by simp⟩
    · exact touched_append_none.trans htouched
    · exact lastPoints_append_some _

/-- A finger that leaves the glass. -/
theorem virtUp_spec (h : t.Good ps) (hf : (t.fingers f).down = true) :
    ∃ t' qs, t.virtUp f = some t' ∧ t'.Good (ps ++ qs) ∧
      t'.fingers = Function.update t.fingers f ⟨false, 0, 0⟩ := by
  have hok := h.state
  rw [virtUp, checkFinger_eq]
  cases hstate : t.state with
  | untouched =>
    rw [StateOk, hstate] at hok
    rw [hok f] at hf
    cases hf
  | singleTouch =>
    rw [StateOk, hstate] at hok
    obtain ⟨g, hg, hother⟩ := hok
    have hgf : f = g := by
      by_contra hne
      rw [hother f hne] at hf
      cases hf
    subst hgf
    refine ⟨_, [⟨some false, none⟩], (dif_pos f.isLt).trans (if_pos hf),
      ⟨?_, h.perrors, h.events_append ⟨some false, none⟩, touched_append_some false,
        fun hs => absurd rfl hs⟩, rfl⟩
    intro g
    by_cases hgf : g = f
    · subst hgf
      simp
    · simp [hgf, hother]
  | multiTouch =>
    have hmulti : (t.setFinger f ⟨false, 0, 0⟩).emitMultiTouch.state = .multiTouch := hstate
    let p : Packet := ⟨none, some (.multi ((t.setFinger f ⟨false, 0, 0⟩).downFingers.map pos))⟩
    have hevents : (t.setFinger f ⟨false, 0, 0⟩).emitMultiTouch.events =
        (ps ++ [p]).flatMap Packet.events :=
      (events_emitMultiTouch _).trans (h.events_append p)
    by_cases hlast : ∀ g, ((t.setFinger f ⟨false, 0, 0⟩).emitMultiTouch.fingers g).down = false
    · refine ⟨_, [p] ++ [⟨some false, none⟩], (dif_pos f.isLt).trans ((if_pos hf).trans
        (if_pos (getFingerState_eq_untouched.2 hlast))),
        ⟨hlast, h.perrors, ?_, ?_, fun hs => absurd rfl hs⟩, rfl⟩
      · rw [← List.append_assoc, List.flatMap_append, List.flatMap_singleton, ← hevents]
        rfl
      · rw [← List.append_assoc]
        exact touched_append_some false
    · refine ⟨_, [p], (dif_pos f.isLt).trans ((if_pos hf).trans
        (if_neg fun hs => hlast (getFingerState_eq_untouched.1 hs))),
        ⟨?_, h.perrors, hevents, ?_, fun _ => lastPoints_append_some _⟩, rfl⟩
      · obtain ⟨g, hg⟩ := not_forall.1 hlast
        rw [StateOk, hmulti]
        exact ⟨g, by simpa using hg⟩
      · rw [touched_append_none, hmulti]
        have htouched := h.touched
        rwa [hstate] at htouched

end

end TsInput

/-! ## The fingers on the glass -/

/-- The fingers on the glass, with their positions. -/
abbrev Contacts : Type := Fin 2 → Option (ℕ × ℕ)

namespace Contacts

/-- No finger is down. -/
def none : Contacts := fun _ => .none

/-- What touch data says.  A press out of range, or without valid data, says
    nothing. -/
def report (c : Contacts) (d : TsData) : Contacts :=
  if h : d.fingerId < 2 then
    if d.pressed = true then
      if d.inRange = true ∧ d.valid = true then
        Function.update c ⟨d.fingerId, h⟩ (some (d.x, d.y))
      else c
    else Function.update c ⟨d.fingerId, h⟩ .none
  else c

/-- What an interrupt says: only a frame with touch data says something. -/
def interrupt (c : Contacts) (rcv : Except Errno (List Byte)) : Contacts :=
  match Device.getReport rcv with
  | .ok ⟨_, .tsData d⟩ => c.report d
  | _ => c

/-- The positions, in the order of the fingers. -/
def positions (c : Contacts) : List (ℕ × ℕ) := (List.finRange 2).filterMap c

end Contacts

/-- A finger as the device keeps it. -/
def shown (f : TsFinger) : Option (ℕ × ℕ) := if f.down then some (pos f) else none

/-- The device and its only observer agree with the fingers on the glass, and so
    do the packets. -/
structure Agrees (d : Device) (t : TsInput) (ps : List Packet) (c : Contacts) : Prop where
  tsObs : d.tsObs = [t]
  good : t.Good ps
  fingerDown : ∀ f, d.fingerDown f = (t.fingers f).down
  contacts : ∀ f, c f = shown (t.fingers f)

section
variable {d : Device} {t : TsInput} {ps : List Packet} {c : Contacts}

theorem positions_eq (l : List (Fin 2)) (fingers : Fin 2 → TsFinger) :
    ((l.map fingers).filter TsFinger.down).map pos = l.filterMap fun f => shown (fingers f) := by
  induction l with
  | nil => rfl
  | cons f l ih =>
    rw [List.map_cons]
    cases hf : (fingers f).down with
    | false =>
      rw [List.filter_cons_of_neg (by simp [hf]), ih, List.filterMap_cons_none (by simp [shown, hf])]
    | true =>
      rw [List.filter_cons_of_pos hf, List.map_cons, ih,
        List.filterMap_cons_some (b := pos (fingers f)) (by simp [shown, hf])]

/-- The packets report the fingers on the glass. -/
theorem Agrees.reported (h : Agrees d t ps c) : reported ps = c.positions := by
  have hpos : c.positions = t.downFingers.map pos := by
    rw [TsInput.downFingers, positions_eq]
    exact congrArg (List.filterMap · _) (funext h.contacts)
  rw [Rafi.reported, h.good.touched, hpos]
  by_cases hs : t.state = .untouched
  · have hok := h.good.state
    rw [TsInput.StateOk, hs] at hok
    rw [TsInput.downFingers_eq_nil.2 hok, if_neg (by simp [hs])]
    rfl
  · rw [if_pos (by simpa using hs), h.good.points hs]

/-- The next value of a finger, for the device and for the contacts. -/
theorem Agrees.update {d' : Device} {t' : TsInput} (h : Agrees d t ps c) (f : Fin 2) (v : TsFinger)
    (hobs : d'.tsObs = [t']) {qs : List Packet} (hgood : t'.Good qs)
    (hdown : d'.fingerDown = Function.update d.fingerDown f v.down)
    (hfingers : t'.fingers = Function.update t.fingers f v) :
    Agrees d' t' qs (Function.update c f (shown v)) := by
  refine ⟨hobs, hgood, fun g => ?_, fun g => ?_⟩
  · rw [hdown, hfingers]
    by_cases hg : g = f
    · subst hg
      simp
    · simp [hg, h.fingerDown]
  · rw [hfingers]
    by_cases hg : g = f
    · subst hg
      simp
    · simp [hg, h.contacts]

theorem Agrees.press (h : Agrees d t ps c) (f : Fin 2) (x y : ℕ) : ∃ d' t' qs,
    d.bcEventTsPress f x y = some d' ∧ Agrees d' t' qs (Function.update c f (some (x, y))) := by
  have hloop : ∃ t' qs,
      Device.pressLoop f x y (d.fingerDown f) [t] = some (true, [t']) ∧ t'.Good qs ∧
      t'.fingers = Function.update t.fingers f ⟨true, x, y⟩ := by
    rw [Device.pressLoop]
    cases hdown : d.fingerDown f with
    | false =>
      obtain ⟨t₁, p₁, hrun₁, hgood₁, hfingers₁⟩ := TsInput.virtDown_spec (x := x) (y := y) h.good
        ((h.fingerDown f).symm.trans hdown)
      obtain ⟨t₂, p₂, hrun₂, hgood₂, hfingers₂⟩ := TsInput.virtMove_spec (f := f) (x := x) (y := y)
        hgood₁ (by simp [hfingers₁])
      refine ⟨t₂, _, ?_, hgood₂, by rw [hfingers₂, hfingers₁, Function.update_idem]⟩
      simp [hrun₁, hrun₂, Device.pressLoop]
    | true =>
      obtain ⟨t₂, p₂, hrun₂, hgood₂, hfingers₂⟩ := TsInput.virtMove_spec (x := x) (y := y) h.good
        ((h.fingerDown f).symm.trans hdown)
      refine ⟨t₂, _, ?_, hgood₂, hfingers₂⟩
      simp [hrun₂, Device.pressLoop]
  obtain ⟨t', qs, hrun, hgood, hfingers⟩ := hloop
  refine ⟨{ d with fingerDown := Function.update d.fingerDown f true, tsObs := [t'] }, t', qs, ?_,
    h.update f ⟨true, x, y⟩ rfl hgood rfl hfingers⟩
  rw [Device.bcEventTsPress, dif_pos f.isLt, h.tsObs, hrun]
  rfl

theorem Agrees.release (h : Agrees d t ps c) (f : Fin 2) : ∃ d' t' qs,
    d.bcEventTsRelease f = some d' ∧ Agrees d' t' qs (Function.update c f none) := by
  have hloop : ∃ t' qs v,
      Device.releaseLoop f (d.fingerDown f) [t] = some (false, [t']) ∧ t'.Good qs ∧
      t'.fingers = Function.update t.fingers f v ∧ v.down = false := by
    rw [Device.releaseLoop]
    cases hdown : d.fingerDown f with
    | false =>
      have hf : (t.fingers f).down = false := (h.fingerDown f).symm.trans hdown
      refine ⟨t, ps, t.fingers f, ?_, h.good, (Function.update_eq_self f t.fingers).symm, hf⟩
      simp [Device.releaseLoop]
    | true =>
      obtain ⟨t', qs, hrun, hgood, hfingers⟩ := TsInput.virtUp_spec h.good
        ((h.fingerDown f).symm.trans hdown)
      refine ⟨t', _, ⟨false, 0, 0⟩, ?_, hgood, hfingers, rfl⟩
      simp [hrun, Device.releaseLoop]
  obtain ⟨t', qs, v, hrun, hgood, hfingers, hv⟩ := hloop
  have hshown : shown v = none := by simp [shown, hv]
  refine ⟨{ d with fingerDown := Function.update d.fingerDown f false, tsObs := [t'] }, t', qs, ?_,
    hshown ▸ h.update f v rfl hgood (by rw [hv]) hfingers⟩
  rw [Device.bcEventTsRelease, dif_pos f.isLt, h.tsObs, hrun]
  rfl

/-- Keys leave the fingers alone. -/
theorem Agrees.congr {d' : Device} (h : Agrees d t ps c) (hobs : d'.tsObs = d.tsObs)
    (hdown : d'.fingerDown = d.fingerDown) : Agrees d' t ps c :=
  ⟨hobs.trans h.tsObs, h.good, fun f => by rw [hdown]; exact h.fingerDown f, h.contacts⟩

theorem handleKey_fingers (touched : Fin 32 → Bool) (i : Fin 32) :
    (d.handleKey touched i).tsObs = d.tsObs ∧ (d.handleKey touched i).fingerDown = d.fingerDown := by
  rw [Device.handleKey]
  split_ifs <;> exact ⟨rfl, rfl⟩

theorem handleKeyArrayReport_fingers (d : Device) (k : KeyArray) :
    (d.handleKeyArrayReport k).tsObs = d.tsObs ∧
      (d.handleKeyArrayReport k).fingerDown = d.fingerDown := by
  rw [Device.handleKeyArrayReport]
  generalize List.finRange 32 = l
  induction l generalizing d with
  | nil => exact ⟨rfl, rfl⟩
  | cons i l ih =>
    obtain ⟨hobs, hdown⟩ := handleKey_fingers (d := d) k.keyTouched i
    obtain ⟨hobs', hdown'⟩ := ih (d.handleKey k.keyTouched i)
    exact ⟨hobs'.trans hobs, hdown'.trans hdown⟩

theorem Agrees.tsData (h : Agrees d t ps c) (ts : TsData) : ∃ d' t' qs,
    (d.handleTsDataReport ts = some (.ok d') ∨
      d.handleTsDataReport ts = some (.error .EINVAL) ∧ d' = d) ∧ Agrees d' t' qs (c.report ts) := by
  rw [Device.handleTsDataReport, Contacts.report]
  by_cases hlt : ts.fingerId < 2
  · rw [dif_pos hlt]
    by_cases hp : ts.pressed = true
    · by_cases hv : ts.inRange = true ∧ ts.valid = true
      · obtain ⟨d', t', qs, hrun, h'⟩ := h.press ⟨ts.fingerId, hlt⟩ ts.x ts.y
        rw [if_neg (by simp [hv]), if_pos hp, if_pos hp, if_pos hv, hrun]
        exact ⟨d', t', qs, .inl rfl, h'⟩
      · have hv' : ts.inRange = false ∨ ts.valid = false := by
          rwa [not_and_or, Bool.not_eq_true, Bool.not_eq_true] at hv
        rw [if_pos ⟨hp, hv'⟩, if_pos hp, if_neg hv]
        exact ⟨d, t, ps, .inr ⟨rfl, rfl⟩, h⟩
    · obtain ⟨d', t', qs, hrun, h'⟩ := h.release ⟨ts.fingerId, hlt⟩
      rw [if_neg (by simp [hp]), if_neg hp, if_neg hp, hrun]
      exact ⟨d', t', qs, .inl rfl, h'⟩
  · rw [dif_neg hlt, Device.bcEventTsPress, Device.bcEventTsRelease, dif_neg hlt, dif_neg hlt]
    split_ifs
    · exact ⟨d, t, ps, .inr ⟨rfl, rfl⟩, h⟩
    · exact ⟨d, t, ps, .inl rfl, h⟩
    · exact ⟨d, t, ps, .inl rfl, h⟩

/-- Frames to follow are refused by the decoder already. -/
theorem remainingFrames_eq_zero {rcv : Except Errno (List Byte)} {r : Report}
    (h : Device.getReport rcv = .ok r) : r.remainingFrames = 0 := by
  cases rcv with
  | error e => cases h
  | ok bytes =>
    have hdec : decodeFrame bytes frameSize = .ok r := h
    rw [decodeFrame, if_neg (by simp)] at hdec
    by_cases hcrc : crc8 0 (bytes.take frameSize) ≠ 0
    · rw [if_pos hcrc] at hdec
      cases hdec
    rw [if_neg hcrc] at hdec
    by_cases hrem : byteAt bytes 0 ≠ 0
    · rw [if_pos hrem] at hdec
      cases hdec
    rw [if_neg hrem] at hdec
    cases hp : decodeReport (bytes.drop 1) 8 with
    | error e => rw [hp] at hdec; cases hdec
    | ok p =>
      rw [hp] at hdec
      cases hdec
      simpa using hrem

/-- **One interrupt.** -/
theorem Agrees.workFn (h : Agrees d t ps c) (rcv : Except Errno (List Byte)) : ∃ d' p t' qs,
    d.workFn rcv = some (d', p) ∧ Agrees d' t' qs (c.interrupt rcv) := by
  cases hget : Device.getReport rcv with
  | error e =>
    refine ⟨d, none, t, ps, ?_, ?_⟩
    · rw [Device.workFn, hget]
    · rwa [Contacts.interrupt, hget]
  | ok report =>
    obtain ⟨n, p⟩ := report
    obtain rfl : n = 0 := remainingFrames_eq_zero hget
    have hwork : d.workFn rcv = d.handlePayload p := by
      rw [Device.workFn, hget]
      exact if_neg (by simp)
    rw [hwork, Contacts.interrupt, hget]
    cases p with
    | tsData ts =>
      obtain ⟨d', t', qs, hok | ⟨herror, rfl⟩, h'⟩ := h.tsData ts
      · exact ⟨d', none, t', qs, by rw [Device.handlePayload, hok]; rfl, h'⟩
      · exact ⟨d', none, t', qs, by rw [Device.handlePayload, herror]; rfl, h'⟩
    | keyArray k =>
      obtain ⟨hobs, hdown⟩ := handleKeyArrayReport_fingers d k
      exact ⟨_, none, t, ps, rfl, h.congr hobs hdown⟩
    | swVersion v => exact ⟨d, _, t, ps, rfl, h⟩
    | status s => exact ⟨d, _, t, ps, rfl, h⟩

/-- Any number of interrupts. -/
theorem Agrees.run (h : Agrees d t ps c) (rcvs : List (Except Errno (List Byte))) : ∃ d' t' qs,
    d.run rcvs = some d' ∧ Agrees d' t' qs (rcvs.foldl Contacts.interrupt c) := by
  induction rcvs generalizing d t ps c with
  | nil => exact ⟨d, t, ps, rfl, h⟩
  | cons rcv rcvs ih =>
    obtain ⟨d₁, p, t₁, qs₁, hwork, h₁⟩ := h.workFn rcv
    obtain ⟨d', t', qs, hrun, h'⟩ := ih h₁
    refine ⟨d', t', qs, ?_, h'⟩
    rw [Device.run, hwork]
    exact hrun

end

theorem agrees_probe (keyObs : Fin 32 → List KeyInput) :
    Agrees (Device.probe keyObs) TsInput.ctor [] Contacts.none :=
  ⟨rfl, TsInput.good_ctor, fun _ => rfl, fun _ => rfl⟩

end MetaHipos.Rafi
