import Mathlib.Data.List.Basic

set_option autoImplicit false

/- The maximal runs of a text, for any property of its elements. A scan from the
left carries the runs that have ended and the one that is still open. -/
namespace LinuxCpp.Scan

variable {α : Type}

/-- From `i` up to `j` the property holds, and on neither side of that. -/
structure IsRun (p : α → Bool) (xs : List α) (i j : Nat) : Prop where
  nonempty : i < j
  inside : ∀ k, i ≤ k → k < j → xs[k]?.any p = true
  before : i = 0 ∨ xs[i - 1]?.any p = false
  behind : xs[j]?.any p = false

/-- All the runs, from left to right. -/
structure Places (p : α → Bool) (xs : List α) (places : List (Nat × Nat)) : Prop where
  mem_iff : ∀ i j, (i, j) ∈ places ↔ IsRun p xs i j
  increasing : places.Pairwise fun a b => a.1 < b.1

structure Progress (α : Type) where
  ended : List (List α)
  current : List α

namespace Progress

def start : Progress α := ⟨[], []⟩

/-- The runs, if the text ends here. -/
def runs (s : Progress α) : List (List α) :=
  if s.current.isEmpty then s.ended else s.ended ++ [s.current]

def step (p : α → Bool) (s : Progress α) (x : α) : Progress α :=
  if p x then ⟨s.ended, s.current ++ [x]⟩ else ⟨s.runs, []⟩

end Progress

def scan (p : α → Bool) (s : Progress α) (xs : List α) : Progress α := xs.foldl (Progress.step p) s

def runs (p : α → Bool) (xs : List α) : List (List α) := (scan p .start xs).runs

open Progress

section Scan

variable {p : α → Bool} {s : Progress α} {x : α} {xs ys : List α}

@[simp] theorem scan_nil (p : α → Bool) (s : Progress α) : scan p s [] = s := rfl

theorem scan_cons (p : α → Bool) (s : Progress α) (x : α) (xs : List α) :
    scan p s (x :: xs) = scan p (s.step p x) xs := rfl

theorem scan_append (p : α → Bool) (s : Progress α) (xs ys : List α) :
    scan p s (xs ++ ys) = scan p (scan p s xs) ys := List.foldl_append ..

theorem step_on (on : p x = true) : s.step p x = ⟨s.ended, s.current ++ [x]⟩ := if_pos on

theorem step_off (off : p x = false) : s.step p x = ⟨s.runs, []⟩ := if_neg (by simp [off])

theorem runs_closed (s : Progress α) (closed : s.current = []) : s.runs = s.ended := by
  simp [Progress.runs, closed]

theorem runs_open (s : Progress α) (open_ : s.current ≠ []) :
    s.runs = s.ended ++ [s.current] := by
  simp [Progress.runs, open_]

theorem runs_ended (ended : List (List α)) (s : Progress α) :
    (⟨ended ++ s.ended, s.current⟩ : Progress α).runs = ended ++ s.runs := by
  by_cases closed : s.current = [] <;> simp [Progress.runs, closed]

/-- What has ended does not matter to the rest of the scan. -/
theorem scan_ended (ended : List (List α)) (s : Progress α) (xs : List α) :
    scan p ⟨ended ++ s.ended, s.current⟩ xs =
      ⟨ended ++ (scan p s xs).ended, (scan p s xs).current⟩ := by
  induction xs generalizing s with
  | nil => rfl
  | cons x xs ih =>
      rw [scan_cons, scan_cons, ← ih]
      congr 1
      cases on : p x with
      | true => rw [step_on on, step_on on]
      | false => rw [step_off on, step_off on, runs_ended]

/-- From a point where no run is open the rest counts for itself. -/
theorem runs_scan_closed (ended : List (List α)) (xs : List α) :
    (scan p ⟨ended, []⟩ xs).runs = ended ++ runs p xs := by
  have rest := scan_ended (p := p) ended .start xs
  rw [show (start : Progress α).ended = [] from rfl, List.append_nil] at rest
  rw [show (⟨ended, []⟩ : Progress α) = ⟨ended, start.current⟩ from rfl, rest, runs_ended]
  rfl

/-- A run is open exactly behind an element that continues it. -/
theorem current_ne_nil_iff (xs : List α) :
    (scan p .start xs).current ≠ [] ↔ ∃ x, xs.getLast? = some x ∧ p x = true := by
  rcases List.eq_nil_or_concat xs with rfl | ⟨ys, x, rfl⟩
  · simp [start]
  · rw [List.concat_eq_append, scan_append, scan_cons, scan_nil, List.getLast?_append]
    cases on : p x with
    | true => simp [step_on on, on]
    | false => simp [step_off on, on]

theorem runs_length_eq (s : Progress α) :
    s.runs.length = s.ended.length + if s.current = [] then 0 else 1 := by
  by_cases closed : s.current = []
  · rw [runs_closed s closed, if_pos closed, Nat.add_zero]
  · rw [runs_open s closed, if_neg closed, List.length_append, List.length_singleton]

theorem runs_length_step (s : Progress α) (x : α) :
    s.runs.length ≤ (s.step p x).runs.length := by
  rw [runs_length_eq, runs_length_eq]
  cases on : p x with
  | true =>
      rw [step_on on, if_neg (List.append_ne_nil_of_right_ne_nil _ (List.cons_ne_nil x []))]
      split <;> simp
  | false =>
      rw [step_off on, ← runs_length_eq]
      simp

/-- No run is lost by reading on. -/
theorem runs_length_scan (s : Progress α) (xs : List α) :
    s.runs.length ≤ (scan p s xs).runs.length := by
  induction xs generalizing s with
  | nil => exact Nat.le_refl _
  | cons x xs ih => exact Nat.le_trans (runs_length_step s x) (ih _)

theorem runs_cons_off (off : p x = false) (xs : List α) : runs p (x :: xs) = runs p xs := by
  rw [runs, scan_cons, step_off off]
  rfl

theorem runs_dropWhile_length (s : Progress α) (open_ : s.current ≠ []) (xs : List α) :
    (scan p s xs).runs.length = s.ended.length + 1 + (runs p (xs.dropWhile p)).length := by
  induction xs generalizing s with
  | nil =>
      rw [scan_nil, runs_length_eq, if_neg open_]
      rfl
  | cons x xs ih =>
      rw [scan_cons]
      cases on : p x with
      | true => rw [step_on on, ih _ (by simp), List.dropWhile_cons_of_pos on]
      | false =>
          rw [step_off on, runs_scan_closed, List.dropWhile_cons_of_neg (by simp [on]),
            runs_cons_off on, List.length_append, runs_length_eq, if_neg open_]

/-- From an element of a run on, there is this run and what begins behind it. -/
theorem runs_length_on (s : Progress α) (on : p x = true) (xs : List α) :
    (scan p s (x :: xs)).runs.length =
      s.ended.length + 1 + (runs p (xs.dropWhile p)).length := by
  rw [scan_cons, step_on on, runs_dropWhile_length _ (by simp)]

theorem runs_eq_nil_iff (xs : List α) : runs p xs = [] ↔ ∀ x ∈ xs, p x = false := by
  induction xs with
  | nil => simp [runs, start, Progress.runs]
  | cons x xs ih =>
      cases on : p x with
      | true =>
          have some_ := runs_length_on .start on xs
          simp only [List.mem_cons, forall_eq_or_imp, on, Bool.true_eq_false, false_and, iff_false]
          intro none
          rw [← runs, none, List.length_nil] at some_
          omega
      | false =>
          rw [runs_cons_off on, ih]
          simp [on]

end Scan

section Places

variable {p : α → Bool} {pre cur post xs : List α} {i j : Nat}

/-- The text between two positions. -/
def between (xs : List α) (place : Nat × Nat) : List α := (xs.drop place.1).take (place.2 - place.1)

theorem any_true {o : Option α} (on : o.any p = true) : ∃ x, o = some x ∧ p x = true := by
  cases o with
  | none => cases on
  | some x => exact ⟨x, rfl, on⟩

theorem IsRun.inBounds (isRun : IsRun p xs i j) : j ≤ xs.length := by
  have nonempty := isRun.nonempty
  obtain ⟨x, last, -⟩ := any_true (isRun.inside (j - 1) (by omega) (by omega))
  have := (List.getElem?_eq_some_iff.mp last).1
  omega

/-- A run stays on one side of an element outside of runs. -/
theorem IsRun.apart (isRun : IsRun p xs i j) {k : Nat} (off : xs[k]?.any p = false) :
    j ≤ k ∨ k < i := by
  by_contra across
  have on := isRun.inside k (by omega) (by omega)
  rw [off] at on
  cases on

theorem IsRun.congr {ys : List α} (same : ∀ k, k ≤ j → xs[k]?.any p = ys[k]?.any p)
    (isRun : IsRun p xs i j) : IsRun p ys i j := by
  obtain ⟨nonempty, inside, before, behind⟩ := isRun
  refine ⟨nonempty, fun k low high => ?_, before.imp id fun off => ?_, ?_⟩
  · rw [← same k (by omega)]
    exact inside k low high
  · rwa [← same (i - 1) (by omega)]
  · rwa [← same j (Nat.le_refl _)]

/-- Runs that begin in front of a text ending outside of runs are runs of it. -/
theorem isRun_append_front (post : List α) (inside : i < pre.length)
    (last : pre[pre.length - 1]?.any p = false) : IsRun p (pre ++ post) i j ↔ IsRun p pre i j := by
  have front : ∀ k, k < pre.length → (pre ++ post)[k]?.any p = pre[k]?.any p := by
    intro k within
    rw [List.getElem?_append_left within]
  constructor
  · intro isRun
    have stop := isRun.apart ((front _ (by omega)).trans last)
    exact isRun.congr fun k within => front k (by omega)
  · intro isRun
    have stop := isRun.apart last
    exact isRun.congr fun k within => (front k (by omega)).symm

/-- From its end on there is the one run, if any. -/
theorem isRun_append_back (behind : pre.length ≤ i)
    (apart : pre = [] ∨ pre[pre.length - 1]?.any p = false)
    (on : ∀ x ∈ cur, p x = true) (off : ∀ x ∈ post, p x = false) :
    IsRun p (pre ++ (cur ++ post)) i j ↔
      cur ≠ [] ∧ i = pre.length ∧ j = pre.length + cur.length := by
  have middle : ∀ k, pre.length ≤ k → k < pre.length + cur.length →
      (pre ++ (cur ++ post))[k]?.any p = true := by
    intro k behind inside
    rw [List.getElem?_append_right behind, List.getElem?_append_left (by omega),
      List.getElem?_eq_getElem (by omega)]
    exact on _ (List.getElem_mem _)
  have back : ∀ k, pre.length + cur.length ≤ k → (pre ++ (cur ++ post))[k]?.any p = false := by
    intro k behind
    rw [List.getElem?_append_right (by omega), List.getElem?_append_right (by omega)]
    cases at_ : post[k - pre.length - cur.length]? with
    | none => rfl
    | some x => exact off x (List.mem_of_getElem? at_)
  constructor
  · intro isRun
    have nonempty := isRun.nonempty
    have bound : j ≤ pre.length + cur.length := by
      by_contra past
      have := isRun.apart (back (j - 1) (by omega))
      omega
    have first : i = pre.length := by
      by_contra later
      have off := isRun.before.resolve_left (by omega)
      rw [middle (i - 1) (by omega) (by omega)] at off
      cases off
    have whole : j = pre.length + cur.length := by
      by_contra shorter
      have off := isRun.behind
      rw [middle j (by omega) (by omega)] at off
      cases off
    exact ⟨List.ne_nil_of_length_pos (by omega), first, whole⟩
  · rintro ⟨some_, rfl, rfl⟩
    have := List.length_pos_of_ne_nil some_
    refine ⟨by omega, middle, ?_, back _ (Nat.le_refl _)⟩
    rcases Nat.eq_zero_or_pos pre.length with none | some_
    · exact .inl none
    · refine .inr ?_
      rw [List.getElem?_append_left (by omega)]
      exact apart.resolve_left (List.ne_nil_of_length_pos some_)

/-- The runs of a text that a run and elements outside of runs are put behind. -/
theorem isRun_append (apart : pre = [] ∨ pre[pre.length - 1]?.any p = false)
    (on : ∀ x ∈ cur, p x = true) (off : ∀ x ∈ post, p x = false) :
    IsRun p (pre ++ (cur ++ post)) i j ↔
      IsRun p pre i j ∨ cur ≠ [] ∧ i = pre.length ∧ j = pre.length + cur.length := by
  rcases Nat.lt_or_ge i pre.length with inside | behind
  · have last := apart.resolve_left (List.ne_nil_of_length_pos (by omega))
    rw [isRun_append_front _ inside last]
    exact ⟨.inl, fun either => either.resolve_right fun later => by omega⟩
  · rw [isRun_append_back behind apart on off]
    refine ⟨.inr, fun either => either.resolve_left fun isRun => ?_⟩
    have nonempty := isRun.nonempty
    have bound := isRun.inBounds
    omega

/-- What has been read: the closed part `pre` with its runs, and the open one. -/
structure Placed (p : α → Bool) (xs : List α) (s : Progress α) (pre : List α)
    (places : List (Nat × Nat)) : Prop where
  split : xs = pre ++ s.current
  on : ∀ x ∈ s.current, p x = true
  apart : pre = [] ∨ pre[pre.length - 1]?.any p = false
  closed : Places p pre places
  texts : places.map (between pre) = s.ended

variable {s : Progress α} {places : List (Nat × Nat)}

theorem between_append (post : List α) {place : Nat × Nat} (inside : place.2 ≤ xs.length) :
    between (xs ++ post) place = between xs place := by
  unfold between
  rcases Nat.le_total place.2 place.1 with empty | nonempty
  · rw [Nat.sub_eq_zero_of_le empty, List.take_zero, List.take_zero]
  · rw [List.drop_append_of_le_length (by omega), List.take_append_of_le_length]
    rw [List.length_drop]
    omega

/-- Behind the open run, at an element outside or at the end, it is a run. -/
theorem Placed.close (placed : Placed p xs s pre places) (post : List α)
    (off : ∀ x ∈ post, p x = false) :
    ∃ places', Places p (xs ++ post) places' ∧
      places'.map (between (xs ++ post)) = s.runs := by
  have whole : xs ++ post = pre ++ (s.current ++ post) := by
    rw [placed.split, List.append_assoc]
  obtain ⟨mem_iff, increasing⟩ := placed.closed
  have old : places.map (between (pre ++ (s.current ++ post))) = s.ended := by
    rw [← placed.texts]
    refine List.map_congr_left fun place member => between_append _ ?_
    exact ((mem_iff place.1 place.2).mp member).inBounds
  rw [whole]
  by_cases closed : s.current = []
  · refine ⟨places, ⟨fun i j => ?_, increasing⟩, by rw [old, runs_closed s closed]⟩
    rw [isRun_append placed.apart placed.on off, mem_iff]
    simp [closed]
  · refine ⟨places ++ [(pre.length, pre.length + s.current.length)], ⟨fun i j => ?_, ?_⟩, ?_⟩
    · rw [isRun_append placed.apart placed.on off, List.mem_append, mem_iff,
        List.mem_singleton, Prod.mk.injEq]
      simp [closed]
    · refine List.pairwise_append.mpr ⟨increasing, List.pairwise_singleton _ _, ?_⟩
      intro place member last isLast
      obtain rfl := List.mem_singleton.mp isLast
      have isRun := (mem_iff place.1 place.2).mp member
      exact Nat.lt_of_lt_of_le isRun.nonempty isRun.inBounds
    · rw [List.map_append, old, runs_open s closed]
      simp [between]

theorem Placed.step (placed : Placed p xs s pre places) (x : α) :
    ∃ pre' places', Placed p (xs ++ [x]) (s.step p x) pre' places' := by
  cases on : p x with
  | true =>
      rw [step_on on]
      refine ⟨pre, places, ?_, ?_, placed.apart, placed.closed, placed.texts⟩
      · rw [placed.split, List.append_assoc]
      · exact List.forall_mem_append.mpr ⟨placed.on, List.forall_mem_singleton.mpr on⟩
  | false =>
      rw [step_off on]
      obtain ⟨places', closed, texts⟩ :=
        placed.close [x] (List.forall_mem_singleton.mpr on)
      refine ⟨xs ++ [x], places', (List.append_nil _).symm, by simp, .inr ?_, closed, texts⟩
      simp [on]

theorem Placed.scan (placed : Placed p xs s pre places) (ys : List α) :
    ∃ pre' places', Placed p (xs ++ ys) (scan p s ys) pre' places' := by
  induction ys generalizing xs s pre places with
  | nil => exact ⟨pre, places, by rwa [List.append_nil]⟩
  | cons y ys ih =>
      obtain ⟨pre', places', placed'⟩ := placed.step y
      obtain ⟨pre'', places'', placed''⟩ := ih placed'
      exact ⟨pre'', places'', by rwa [List.append_assoc] at placed''⟩

/-- `runs` has the texts of all the maximal runs, from left to right. -/
theorem exists_places (p : α → Bool) (xs : List α) :
    ∃ places, Places p xs places ∧ places.map (between xs) = runs p xs := by
  have nothing : ∀ i j, ¬ IsRun p ([] : List α) i j := fun i j isRun => by
    have := isRun.nonempty
    have := isRun.inBounds
    rw [List.length_nil] at this
    omega
  have placed : Placed p [] .start [] [] :=
    ⟨rfl, by simp [start], .inl rfl, ⟨fun i j => by simp [nothing i j], .nil⟩, rfl⟩
  obtain ⟨pre, places, scanned⟩ := placed.scan xs
  have closed := scanned.close [] (by simp)
  rwa [List.nil_append, List.append_nil] at closed

theorem Places.nodup (all : Places p xs places) : places.Nodup :=
  all.increasing.imp fun below same => absurd (congrArg Prod.fst same) (Nat.ne_of_lt below)

theorem Places.unique {places' : List (Nat × Nat)} (all : Places p xs places)
    (all' : Places p xs places') : places = places' := by
  have same : ∀ place, place ∈ places ↔ place ∈ places' := fun place =>
    (all.mem_iff place.1 place.2).trans (all'.mem_iff place.1 place.2).symm
  have perm : places.Perm places' := (List.perm_ext_iff_of_nodup all.nodup all'.nodup).mpr same
  exact perm.eq_of_pairwise (fun a b _ _ below above => absurd below (Nat.lt_asymm above))
    all.increasing all'.increasing

theorem Places.texts (all : Places p xs places) : places.map (between xs) = runs p xs := by
  obtain ⟨places', all', texts⟩ := exists_places p xs
  rw [all.unique all', texts]

theorem Places.length (all : Places p xs places) : places.length = (runs p xs).length := by
  rw [← all.texts, List.length_map]

end Places

end LinuxCpp.Scan
