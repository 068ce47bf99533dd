import Mathlib

/-! # Due Slots of a CronJob

    `most_recent_schedule_time` looks for the latest slot of the schedule that is due:
    after the last start and not after now. It does not walk from the last start. It
    takes the distance of the first two slots, extrapolates to a point near now, and
    walks from there. Instants are nanoseconds since 1970; arithmetic that leaves the
    range of `chrono` panics, which is the answer `none`.
-/

namespace CronJobs

def second : Int := 1000000000

/-- A crontab schedule: slots at least a second apart, and the first one after an instant. -/
structure Schedule where
  slots : Set Int
  next : Int → Option Int
  apart : ∀ s ∈ slots, ∀ s' ∈ slots, s < s' → s + second ≤ s'
  next_some : ∀ t s, next t = some s → IsLeast {s | s ∈ slots ∧ t < s} s
  next_none : ∀ t, next t = none → ∀ s ∈ slots, s ≤ t

structure CronJob where
  last_schedule_time : Option Int
  creation_timestamp : Option Int
  starting_deadline_seconds : Option Int

inductive MissedSchedules where
  | none
  | few
  | many
  deriving DecidableEq

structure MostRecent where
  earliest : Int
  most_recent : Option Int
  missed : MissedSchedules

def too_close : String := "time difference between two schedules is less than 1 second"

def num_seconds (d : Int) : Int := d.tdiv second

/-- The first instant that `chrono` knows, the start of the year -262143. -/
def MIN_UTC : Int := -8334601228800 * second

/-- The last one, the end of the year 262142. -/
def MAX_UTC : Int := 8210266876800 * second - 1

/-- `t - Duration::seconds(n)`. -/
def sub_seconds (t n : Int) : Option Int :=
  let earlier := t - n * second
  if MIN_UTC ≤ earlier ∧ earlier ≤ MAX_UTC then some earlier else none

/-- The instant below which nothing is started. -/
def earliest_time (cj : CronJob) (now : Int) (include_sds : Bool) : Option Int := do
  let a_minute_ago ← sub_seconds now 60
  let earliest := (cj.last_schedule_time.or cj.creation_timestamp).getD a_minute_ago
  match include_sds, cj.starting_deadline_seconds with
  | true, some sds =>
    let scheduling_deadline ← sub_seconds now sds
    return if earliest < scheduling_deadline then scheduling_deadline else earliest
  | _, _ => return earliest

section

variable (schedule : Schedule) (now : Int)

def walk : Nat → Option Int → Option Int → Option Int
  | fuel + 1, some slot, most_recent =>
    if slot ≤ now then walk fuel (schedule.next slot) (some slot) else most_recent
  | _, _, most_recent => most_recent

/-- The point the walk starts from: one interval before the estimate. -/
def potential_earliest (t1 t2 : Int) : Int :=
  let between := num_seconds (t2 - t1)
  let number_of_missed := (num_seconds (now - t1)).tdiv between + 1
  t1 + (number_of_missed - 1 - 1) * between * second

/-- What `most_recent_schedule_time` finds from the earliest time on. -/
def most_recent_after (earliest : Int) : Except String MostRecent :=
  match schedule.next earliest with
  | none => .error too_close
  | some t1 =>
    if now < t1 then .ok ⟨earliest, none, .none⟩
    else
      match schedule.next t1 with
      | none => .error too_close
      | some t2 =>
        if now < t2 then .ok ⟨earliest, some t1, .none⟩
        else
          let between := num_seconds (t2 - t1)
          if between < 1 then .error too_close
          else
            let number_of_missed := (num_seconds (now - t1)).tdiv between + 1
            let start := potential_earliest now t1 t2
            -- two slots are a second apart, so there are fewer slots than nanoseconds
            let most_recent := walk schedule now ((now - start).toNat + 1) (schedule.next start) none
            let missed :=
              if 100 < number_of_missed then .many
              else if 0 < number_of_missed then .few else .none
            .ok ⟨earliest, most_recent, missed⟩

def most_recent_schedule_time (cj : CronJob) (include_sds : Bool) :
    Option (Except String MostRecent) :=
  (earliest_time cj now include_sds).map (most_recent_after schedule now)

def next_schedule_time (cj : CronJob) : Option (Except String (Option Int × MissedSchedules)) :=
  (most_recent_schedule_time schedule now cj true).map fun
    | .error e => .error e
    | .ok r =>
      match r.most_recent with
      | some t => if t ≤ now then .ok (some t, r.missed) else .ok (none, r.missed)
      | none => .ok (none, r.missed)

/-! ### Due slots -/

/-- The slots after one instant and not after another. -/
def due (a b : Int) : Set Int := {s | s ∈ schedule.slots ∧ a < s ∧ s ≤ b}

/-- The answer that names the greatest due slot, and nothing when none is due. -/
def Latest (a b : Int) : Option Int → Prop
  | some s => IsGreatest (due schedule a b) s
  | none => due schedule a b = ∅

/-- `most_recent_schedule_time` finds the latest due slot. -/
def Finds (cj : CronJob) (include_sds : Bool) : Prop :=
  ∃ earliest r, earliest_time cj now include_sds = some earliest ∧
    most_recent_schedule_time schedule now cj include_sds = some (.ok r) ∧
    Latest schedule earliest now r.most_recent

/-- Nothing is due, or the first slot is the only one so far and another is to come, or a
    slot is due after the point the walk starts from. -/
def WithinReach (earliest : Int) : Prop :=
  ∃ t1, schedule.next earliest = some t1 ∧
    (now < t1 ∨ ∃ t2, schedule.next t1 = some t2 ∧
      (now < t2 ∨ (due schedule (potential_earliest now t1 t2) now).Nonempty))

end

section

variable {schedule : Schedule} {now : Int}

variable {b t : Int}

theorem due_eq_empty_of_next_none (h : schedule.next t = none) : due schedule t b = ∅ := by
  apply Set.eq_empty_of_forall_notMem
  intro s ⟨hs, hlt, _⟩
  have hle := schedule.next_none t h s hs
  omega

theorem due_eq_empty_of_lt {s : Int} (h : schedule.next t = some s) (hlt : b < s) :
    due schedule t b = ∅ := by
  apply Set.eq_empty_of_forall_notMem
  intro s' ⟨hs', hgt, hle⟩
  have hleast := (schedule.next_some t s h).2 ⟨hs', hgt⟩
  omega

variable {r : Option Int}

/-- The latest slot due after the next one is the latest due, and the next one itself when
    none is. -/
theorem latest_of_next {s : Int} (h : schedule.next t = some s) (hle : s ≤ b)
    (hr : Latest schedule s b r) : Latest schedule t b (some (r.getD s)) := by
  obtain ⟨⟨hs, hgt⟩, hleast⟩ := schedule.next_some t s h
  cases r with
  | some m =>
    obtain ⟨⟨hm, hsm, hmb⟩, hmax⟩ := hr
    have htm : t < m := by omega
    refine ⟨⟨hm, htm, hmb⟩, ?_⟩
    intro s' ⟨hs', hts', hs'b⟩
    have hge := hleast ⟨hs', hts'⟩
    by_cases heq : s' = s
    · show s' ≤ m
      omega
    · exact hmax ⟨hs', by omega, hs'b⟩
  | none =>
    refine ⟨⟨hs, hgt, hle⟩, ?_⟩
    intro s' ⟨hs', hts', hs'b⟩
    by_contra hnot
    have hmem : s' ∈ due schedule s b := ⟨hs', not_le.mp hnot, hs'b⟩
    rw [show due schedule s b = ∅ from hr] at hmem
    exact hmem

/-- **The walk** finds the latest slot due after its start, or keeps what it had. -/
theorem walk_spec (fuel : Nat) (t : Int) (hfuel : (now - t).toNat < fuel) (found : Option Int) :
    ∃ r, Latest schedule t now r ∧ walk schedule now fuel (schedule.next t) found = r.or found := by
  induction fuel generalizing t found with
  | zero => omega
  | succ fuel ih =>
    cases hnext : schedule.next t with
    | none => exact ⟨none, due_eq_empty_of_next_none hnext, rfl⟩
    | some s =>
      rw [walk]
      by_cases hle : s ≤ now
      · have hgt : t < s := (schedule.next_some t s hnext).1.2
        obtain ⟨r, hr, hwalk⟩ := ih s (by omega) (some s)
        refine ⟨some (r.getD s), latest_of_next hnext hle hr, ?_⟩
        rw [if_pos hle, hwalk]
        cases r <;> rfl
      · rw [if_neg hle]
        exact ⟨none, due_eq_empty_of_lt hnext (by omega), rfl⟩

/-- The estimate is not before the first slot. -/
theorem le_potential_earliest {t1 t2 : Int} (hapart : t1 + second ≤ t2) (hnow : t2 ≤ now) :
    t1 ≤ potential_earliest now t1 t2 := by
  have hpos : (0 : Int) < second := by decide
  have hbetween : num_seconds (t2 - t1) = (t2 - t1) / second :=
    Int.tdiv_eq_ediv_of_nonneg (by omega)
  have helapsed : num_seconds (now - t1) = (now - t1) / second :=
    Int.tdiv_eq_ediv_of_nonneg (by omega)
  have hone : 1 ≤ (t2 - t1) / second := by
    apply (Int.le_ediv_iff_mul_le hpos).mpr
    omega
  have hmono : (t2 - t1) / second ≤ (now - t1) / second :=
    Int.ediv_le_ediv hpos (by omega)
  have hmissed : 1 ≤ ((now - t1) / second).tdiv ((t2 - t1) / second) := by
    rw [Int.tdiv_eq_ediv_of_nonneg (by omega)]
    apply (Int.le_ediv_iff_mul_le (by omega)).mpr
    omega
  have hstep : 0 ≤ (((now - t1) / second).tdiv ((t2 - t1) / second) + 1 - 1 - 1) *
      ((t2 - t1) / second) * second := by
    apply Int.mul_nonneg (Int.mul_nonneg _ _) (by omega) <;> omega
  rw [potential_earliest, hbetween, helapsed]
  omega

theorem latest_of_later_start {a a' : Int} (hle : a ≤ a') (hr : Latest schedule a' b r)
    (hsome : r.isSome = true) : Latest schedule a b r := by
  cases r with
  | none => cases hsome
  | some s =>
    obtain ⟨⟨hs, hgt, hsb⟩, hmax⟩ := hr
    refine ⟨⟨hs, by omega, hsb⟩, ?_⟩
    intro s' ⟨hs', _, hs'b⟩
    by_cases hlater : a' < s'
    · exact hmax ⟨hs', hlater, hs'b⟩
    · show s' ≤ s
      omega

theorem isSome_iff_nonempty {a : Int} (hr : Latest schedule a b r) :
    r.isSome = true ↔ (due schedule a b).Nonempty := by
  cases r with
  | none =>
    rw [show due schedule a b = ∅ from hr]
    simp
  | some s => exact iff_of_true rfl ⟨s, hr.1⟩

theorem finds_iff_withinReach (earliest : Int) :
    (∃ r, most_recent_after schedule now earliest = .ok r ∧
        Latest schedule earliest now r.most_recent) ↔ WithinReach schedule now earliest := by
  unfold WithinReach most_recent_after
  cases h1 : schedule.next earliest with
  | none => simp
  | some t1 =>
    simp only [Option.some.injEq, exists_eq_left']
    obtain ⟨⟨hs1, hgt1⟩, _⟩ := schedule.next_some earliest t1 h1
    split_ifs with hn1
    · exact iff_of_true ⟨_, rfl, due_eq_empty_of_lt h1 hn1⟩ (.inl hn1)
    · cases h2 : schedule.next t1 with
      | none => simp [hn1]
      | some t2 =>
        simp only [Option.some.injEq, exists_eq_left', hn1, false_or]
        obtain ⟨⟨hs2, hgt2⟩, _⟩ := schedule.next_some t1 t2 h2
        have hapart := schedule.apart t1 hs1 t2 hs2 hgt2
        by_cases hn2 : now < t2
        · rw [if_pos hn2]
          refine iff_of_true ⟨_, rfl, ?_⟩ (.inl hn2)
          exact latest_of_next h1 (not_lt.mp hn1) (r := none) (due_eq_empty_of_lt h2 hn2)
        · have hbetween : ¬ num_seconds (t2 - t1) < 1 := by
            rw [num_seconds, Int.tdiv_eq_ediv_of_nonneg (by omega), not_lt,
              Int.le_ediv_iff_mul_le (by decide)]
            omega
          have hstart := le_potential_earliest hapart (not_lt.mp hn2)
          obtain ⟨r, hr, hwalk⟩ : ∃ r, Latest schedule (potential_earliest now t1 t2) now r ∧
              walk schedule now ((now - potential_earliest now t1 t2).toNat + 1)
                (schedule.next (potential_earliest now t1 t2)) none = r.or none :=
            walk_spec _ _ (Nat.lt_succ_self _) none
          rw [if_neg hn2, if_neg hbetween, hwalk, Option.or_none, ← isSome_iff_nonempty hr]
          simp only [Except.ok.injEq, exists_eq_left', hn2, false_or]
          constructor
          · intro hfound
            -- the first slot is due, so the answer is not empty
            exact (isSome_iff_nonempty hfound).mpr ⟨t1, hs1, hgt1, not_lt.mp hn1⟩
          · exact latest_of_later_start (by omega) hr

end

/-- **Due slots.** `most_recent_schedule_time` answers with the greatest slot after the earliest
    time and not after now, and with none exactly when there is no such slot, if and only if
    the earliest time is in range and that slot within reach of the estimate; and then
    `next_schedule_time` starts it. -/
theorem due_slot_found_iff (schedule : Schedule) (cj : CronJob) (now : Int) :
    (∀ include_sds, Finds schedule now cj include_sds ↔
        ∃ earliest, earliest_time cj now include_sds = some earliest ∧
          WithinReach schedule now earliest) ∧
      ∀ earliest, earliest_time cj now true = some earliest → WithinReach schedule now earliest →
        ∃ slot missed, next_schedule_time schedule now cj = some (.ok (slot, missed)) ∧
          Latest schedule earliest now slot := by
  constructor
  · intro include_sds
    unfold Finds most_recent_schedule_time
    cases earliest_time cj now include_sds with
    | none => simp
    | some earliest => simp [finds_iff_withinReach]
  · intro earliest hearliest hreach
    obtain ⟨r, h, hr⟩ := (finds_iff_withinReach earliest).mpr hreach
    refine ⟨r.most_recent, r.missed, ?_, hr⟩
    rw [next_schedule_time, most_recent_schedule_time, hearliest, Option.map_some, Option.map_some, h]
    cases hm : r.most_recent with
    | none => simp [hm]
    | some t =>
      rw [hm] at hr
      simp [hm, if_pos hr.1.2.2]

/-! ### Weekdays only -/

def day : Int := 86400 * second

def weekdays : Schedule where
  slots := {s | ∃ d : Int, s = d * day ∧ d % 7 < 5}
  next t :=
    let d := t / day + 1
    some ((if d % 7 < 5 then d else d + (7 - d % 7)) * day)
  apart := by
    intro s ⟨d, hs, _⟩ s' ⟨d', hs', _⟩ hlt
    unfold day second at *
    omega
  next_some := by
    intro t s h
    cases h
    refine ⟨⟨⟨_, rfl, ?_⟩, ?_⟩, ?_⟩
    · split_ifs <;> omega
    · unfold day second
      split_ifs <;> omega
    · intro s' ⟨⟨d, hs', hd⟩, hlt⟩
      unfold day second at *
      split_ifs <;> omega
  next_none := by
    intro t h
    cases h

/-- Last started on Wednesday, looked at on Sunday at noon: Friday's slot is due, and nothing
    is started. -/
theorem friday_slot_missed :
    let cj : CronJob := ⟨some (2 * day), none, none⟩
    let now := 6 * day + day / 2
    earliest_time cj now true = some (2 * day) ∧
      IsGreatest (due weekdays (2 * day) now) (4 * day) ∧
      next_schedule_time weekdays now cj = some (.ok (none, .few)) := by
  refine ⟨by decide, ⟨⟨⟨4, rfl, by decide⟩, by decide, by decide⟩, ?_⟩, by rfl⟩
  intro s ⟨⟨d, hs, hd⟩, _, hle⟩
  unfold day second at *
  omega

/-- Last started on Wednesday and looked at on Friday at noon: Friday's slot is started. -/
theorem friday_slot_found :
    let cj : CronJob := ⟨some (2 * day), none, none⟩
    let now := 4 * day + day / 2
    ∃ slot missed, next_schedule_time weekdays now cj = some (.ok (slot, missed)) ∧
      Latest weekdays (2 * day) now slot := by
  refine (due_slot_found_iff weekdays _ _).2 (2 * day) (by decide) ?_
  refine ⟨3 * day, rfl, .inr ⟨4 * day, rfl, .inr ⟨4 * day, ⟨4, rfl, by decide⟩, ?_, ?_⟩⟩⟩ <;> decide

end CronJobs
