import DeviceDescription.Lease
import DeviceDescription.Proofs.FilledFields

/-!
# What is left of a lease, over every history of resets and readings

A window is asked for one thing after another, on a clock that never goes back. The lease in force is the one that
the last successful reset began, and what a reading shows follows from it alone.
-/
namespace DeviceDescription

section Runs
variable {σ ρ α : Type}

/-- What each request is answered, and the state after the last one. -/
def serveAll (serve : σ → ρ → α × σ) (s : σ) : List ρ → List α × σ
  | [] => ([], s)
  | r :: rest =>
    let (answer, next) := serve s r
    let (answers, last) := serveAll serve next rest
    (answer :: answers, last)

variable (serve : σ → ρ → α × σ) (s : σ)

theorem serveAll_append (rs rest : List ρ) :
    serveAll serve s (rs ++ rest) =
      ((serveAll serve s rs).1 ++ (serveAll serve (serveAll serve s rs).2 rest).1,
        (serveAll serve (serveAll serve s rs).2 rest).2) := by
  induction rs generalizing s with
  | nil => rfl
  | cons r rs ih => simp only [List.cons_append, serveAll, ih]

@[simp] theorem length_answers (rs : List ρ) : (serveAll serve s rs).1.length = rs.length := by
  induction rs generalizing s with
  | nil => rfl
  | cons r rs ih => simp only [serveAll, List.length_cons, ih]

/-- A request is answered in the state that the ones before it lead to. -/
theorem answer_getElem? (before : List ρ) (r : ρ) (after : List ρ) :
    (serveAll serve s (before ++ r :: after)).1[before.length]? = some (serve (serveAll serve s before).2 r).1 := by
  rw [serveAll_append]
  have hlength : (serveAll serve s before).1.length = before.length := length_answers serve s before
  rw [List.getElem?_append_right hlength.le, hlength, Nat.sub_self]
  rfl

end Runs

namespace Lease

/-- A number of seconds is written between blanks, and a word holds it. -/
def IsMaxAge (text : Text) (secs : Nat) : Prop :=
  Numeral.Denotes (Text.trim text) secs ∧ secs ≤ Numeral.maxWord64

theorem readMaxAge_of_isMaxAge {text : Text} {secs : Nat} (h : IsMaxAge text secs) :
    readMaxAge text = .ok (.ofSecs secs) := by
  rw [readMaxAge, Numeral.read?_eq_some_iff.mpr h]

theorem readMaxAge_of_forall_not {text : Text} (h : ∀ secs, ¬ IsMaxAge text secs) :
    readMaxAge text = .error (.invalidMaxAge text) := by
  rw [readMaxAge]
  cases hr : Numeral.read? Numeral.maxWord64 (Text.trim text) with
  | none => rfl
  | some secs => exact absurd (Numeral.read?_eq_some_iff.mp hr) (h secs)

section Remaining
variable (l : Lease) {now later : Instant}

/-- Both spans fit in a word, so that their difference does. -/
theorem toInt_remainingMillis (now : Instant) :
    (l.remainingMillis now).toInt = l.duration.millis.toInt - (l.elapsed now).millis.toInt := by
  rw [remainingMillis, Int64.toInt_sub]
  apply Int.bmod_eq_of_le
  all_goals
    rw [Duration.toInt_millis, Duration.toInt_millis, Duration.maxMillis]
    omega

theorem remainingMillis_antitone (h : now ≤ later) : l.remainingMillis later ≤ l.remainingMillis now := by
  rw [Int64.le_iff_toInt_le, toInt_remainingMillis, toInt_remainingMillis, Duration.toInt_millis,
    Duration.toInt_millis, Duration.toInt_millis]
  have helapsed : (l.elapsed now).nanoseconds ≤ (l.elapsed later).nanoseconds := Nat.sub_le_sub_right h _
  have hmillis := Nat.div_le_div_right (c := 1000000) helapsed
  omega

theorem isExpired_of_le (h : now ≤ later) (hexpired : l.isExpired now = true) : l.isExpired later = true := by
  rw [isExpired, decide_eq_true_iff] at hexpired ⊢
  exact Int64.le_trans (remainingMillis_antitone l h) hexpired

/-- The least word is never left, so there is a span to show. -/
theorem remainingTime?_eq (now : Instant) :
    l.remainingTime? now = some ⟨(l.remainingMillis now).toInt⟩ := by
  rw [remainingTime?, SignedSpan.ofMillis?, if_neg]
  intro hleast
  have h := toInt_remainingMillis l now
  rw [hleast, Duration.toInt_millis, Duration.toInt_millis, Duration.maxMillis] at h
  have hmin : Int64.minValue.toInt = -9223372036854775808 := by decide
  omega

theorem toInt_remainingMillis_created :
    (l.remainingMillis l.created).toInt = min (l.duration.nanoseconds / 1000000) Duration.maxMillis := by
  rw [toInt_remainingMillis, Duration.toInt_millis, Duration.toInt_millis, elapsed, Nat.sub_self]
  simp

end Remaining

inductive Request where
  | reset (duration : Duration)
  | resetMaxAge (text : Text)
  | inspect
  deriving DecidableEq, Repr

abbrev History := List (Instant × Request)

structure Reading where
  duration : Duration
  created : Instant
  remainingMillis : Int64
  remainingTime : Option SignedSpan
  isExpired : Bool
  deriving DecidableEq, Repr

inductive Answer where
  | done
  | refused (reason : DescriptionError)
  | reading (r : Reading)
  deriving DecidableEq, Repr

def inspect (l : Lease) (now : Instant) : Reading :=
  ⟨l.duration, l.created, l.remainingMillis now, l.remainingTime? now, l.isExpired now⟩

def serve (l : Lease) : Instant × Request → Answer × Lease
  | (now, .reset duration) => (.done, l.reset duration now)
  | (now, .resetMaxAge text) => match l.resetMaxAge text now with
    | .ok next => (.done, next)
    | .error e => (.refused e, l)
  | (now, .inspect) => (.reading (l.inspect now), l)

/-- A reset succeeds if it gives a duration or the text of one. Its lease is in force from its instant. -/
inductive Begins : Instant × Request → Lease → Prop
  | reset (now : Instant) (duration : Duration) : Begins (now, .reset duration) ⟨duration, now⟩
  | resetMaxAge (now : Instant) {text : Text} {secs : Nat} (h : IsMaxAge text secs) :
    Begins (now, .resetMaxAge text) ⟨.ofSecs secs, now⟩

/-- No request of a history begins a lease. -/
def Undisturbed (history : History) : Prop := ∀ q ∈ history, ∀ l, ¬ Begins q l

/-- The lease of the last successful reset, or else the one there was at first. -/
inductive InForce (first : Lease) : History → Lease → Prop
  | first {history : History} (h : Undisturbed history) : InForce first history first
  | reset {q : Instant × Request} {l : Lease} (before : History) (hq : Begins q l)
    {after : History} (h : Undisturbed after) : InForce first (before ++ q :: after) l

section Steps
variable (l : Lease) {q : Instant × Request} {next : Lease}

theorem serve_of_begins (h : Begins q next) : l.serve q = (.done, next) := by
  cases h with
  | reset now duration => rfl
  | resetMaxAge now htext =>
    rw [serve, resetMaxAge, readMaxAge_of_isMaxAge htext]
    rfl

theorem serve_resetMaxAge_of_forall_not (now : Instant) {text : Text} (h : ∀ secs, ¬ IsMaxAge text secs) :
    l.serve (now, .resetMaxAge text) = (.refused (.invalidMaxAge text), l) := by
  rw [serve, resetMaxAge, readMaxAge_of_forall_not h]
  rfl

/-- What begins no lease is a reading, or a reset that is refused. The lease stays as it was. -/
theorem serve_of_forall_not (h : ∀ next, ¬ Begins q next) : (l.serve q).1 ≠ .done ∧ (l.serve q).2 = l := by
  obtain ⟨now, request⟩ := q
  cases request with
  | reset duration => exact absurd (.reset now duration) (h ⟨duration, now⟩)
  | resetMaxAge text =>
    have hinvalid : ∀ secs, ¬ IsMaxAge text secs := fun secs hsecs => h ⟨.ofSecs secs, now⟩ (.resetMaxAge now hsecs)
    rw [serve_resetMaxAge_of_forall_not l now hinvalid]
    exact ⟨nofun, rfl⟩
  | inspect => exact ⟨nofun, rfl⟩

theorem serve_eq_done_iff : (l.serve q).1 = .done ↔ ∃ next, Begins q next := by
  refine ⟨fun hdone => ?_, fun ⟨next, h⟩ => by rw [serve_of_begins l h]⟩
  by_contra hnone
  exact (serve_of_forall_not l (not_exists.mp hnone)).1 hdone

private theorem not_begins_inspect (now : Instant) : ¬ Begins (now, .inspect) next := nofun

end Steps

def answers (first : Lease) (history : History) : List Answer := (serveAll serve first history).1

def outcome (first : Lease) (history : History) : Lease := (serveAll serve first history).2

section Histories
variable (first : Lease) {history : History}

@[simp] theorem outcome_cons (q : Instant × Request) (rest : History) :
    first.outcome (q :: rest) = (first.serve q).2.outcome rest := rfl

@[simp] theorem outcome_append (before after : History) :
    first.outcome (before ++ after) = (first.outcome before).outcome after := by
  rw [outcome, serveAll_append]
  rfl

theorem outcome_of_undisturbed (h : Undisturbed history) : first.outcome history = first := by
  induction history with
  | nil => rfl
  | cons q history ih =>
    rw [outcome_cons, (serve_of_forall_not first (h q List.mem_cons_self)).2]
    exact ih fun x hx => h x (List.mem_cons_of_mem _ hx)

private theorem undisturbed_inspect {now : Instant} (h : Undisturbed history) :
    Undisturbed ((now, .inspect) :: history) := by
  intro q hq l
  rcases List.mem_cons.mp hq with rfl | hq
  · exact not_begins_inspect now
  · exact h q hq l

theorem InForce.concat {q : Instant × Request} {l : Lease} (h : InForce first history l)
    (hq : ∀ next, ¬ Begins q next) : InForce first (history ++ [q]) l := by
  have hconcat {rest : History} (hrest : Undisturbed rest) : Undisturbed (rest ++ [q]) := by
    intro x hx
    rcases List.mem_append.mp hx with hx | hx
    · exact hrest x hx
    · exact List.mem_singleton.mp hx ▸ hq
  cases h with
  | first h => exact .first (hconcat h)
  | reset before hbegins h =>
    rw [List.append_assoc, List.cons_append]
    exact .reset before hbegins (hconcat h)

theorem inForce_outcome (history : History) : InForce first history (first.outcome history) := by
  -- The last request decides: it begins a lease, or the one before it stays in force.
  induction history using List.reverseRecOn with
  | nil => exact .first nofun
  | append_singleton history q ih =>
    rw [outcome_append, outcome_cons]
    by_cases hq : ∃ next, Begins q next
    · obtain ⟨next, hq⟩ := hq
      rw [serve_of_begins _ hq]
      exact .reset history hq nofun
    · have hnone := not_exists.mp hq
      rw [(serve_of_forall_not _ hnone).2]
      exact ih.concat first hnone

theorem outcome_of_inForce {l : Lease} (h : InForce first history l) : first.outcome history = l := by
  cases h with
  | first h => exact outcome_of_undisturbed first h
  | reset before hq h => rw [outcome_append, outcome_cons, serve_of_begins _ hq, outcome_of_undisturbed l h]

private theorem answers_getElem? (before : History) (q : Instant × Request) (after : History) :
    (first.answers (before ++ q :: after))[before.length]? = some ((first.outcome before).serve q).1 :=
  answer_getElem? serve first before q after

/-- A refused reset is answered, and nothing else tells that it was attempted. -/
theorem answers_of_refused (before after : History) (now : Instant) {text : Text}
    (h : ∀ secs, ¬ IsMaxAge text secs) :
    ∃ earlier later, earlier.length = before.length ∧
      first.answers (before ++ (now, .resetMaxAge text) :: after) =
        earlier ++ .refused (.invalidMaxAge text) :: later ∧
      first.answers (before ++ after) = earlier ++ later ∧
      first.outcome (before ++ (now, .resetMaxAge text) :: after) = first.outcome (before ++ after) := by
  have hserve := serve_resetMaxAge_of_forall_not (first.outcome before) now h
  have hrest : serveAll serve (first.outcome before) ((now, .resetMaxAge text) :: after) =
      (.refused (.invalidMaxAge text) :: (first.outcome before).answers after,
        (first.outcome before).outcome after) := by
    rw [serveAll, hserve]
    rfl
  refine ⟨first.answers before, (first.outcome before).answers after, length_answers serve first before, ?_, ?_, ?_⟩
  · rw [answers, serveAll_append]
    exact congrArg (fun run => first.answers before ++ run.1) hrest
  · rw [answers, serveAll_append]
    rfl
  · rw [outcome_append, outcome_append, outcome, hrest]

end Histories

private theorem instant_le {before between after : History} {p q : Instant × Request}
    (h : ((before ++ p :: (between ++ q :: after)).map Prod.fst).Pairwise (· ≤ ·)) : p.1 ≤ q.1 := by
  rw [List.pairwise_map, List.pairwise_append] at h
  exact (List.pairwise_cons.mp h.2.1).1 q (List.mem_append_right _ List.mem_cons_self)

/-- Whatever a window is asked for at instants that do not decrease: The lease in force is that of the last successful
reset, and each reading shows it. A reset succeeds if it gives a duration or the text of one. Another text is refused
with that text, and all other answers and the lease are those of the history without it. From one successful reset to
the next, no reading shows more time than an earlier one, and what has expired stays so. A reading at the instant of a
successful reset shows all of its duration in milliseconds, up to the greatest word. -/
theorem shown_over_history (first : Lease) (history : History)
    (hclock : (history.map Prod.fst).Pairwise (· ≤ ·)) :
    (∀ l, InForce first history l ↔ first.outcome history = l) ∧
    (∀ (before : History) (now : Instant) (after : History), history = before ++ (now, .inspect) :: after →
      ∃ l, InForce first before l ∧ (first.answers history)[before.length]? = some (.reading (l.inspect now))) ∧
    (∀ (before : History) (q : Instant × Request) (after : History), history = before ++ q :: after →
      ((first.answers history)[before.length]? = some .done ↔ ∃ l, Begins q l)) ∧
    (∀ (before : History) (now : Instant) (text : Text) (after : History),
      history = before ++ (now, .resetMaxAge text) :: after → (∀ secs, ¬ IsMaxAge text secs) →
      ∃ earlier later, earlier.length = before.length ∧
        first.answers history = earlier ++ .refused (.invalidMaxAge text) :: later ∧
        first.answers (before ++ after) = earlier ++ later ∧
        first.outcome history = first.outcome (before ++ after)) ∧
    (∀ (before : History) (now : Instant) (between : History) (later : Instant) (after : History),
      history = before ++ (now, .inspect) :: (between ++ (later, .inspect) :: after) → Undisturbed between →
      ∃ r s, (first.answers history)[before.length]? = some (.reading r) ∧
        (first.answers history)[(before ++ (now, .inspect) :: between).length]? = some (.reading s) ∧
        s.remainingMillis ≤ r.remainingMillis ∧ (r.isExpired = true → s.isExpired = true)) ∧
    (∀ (before : History) (now : Instant) (request : Request) (l : Lease) (between after : History),
      history = before ++ (now, request) :: (between ++ (now, .inspect) :: after) → Begins (now, request) l →
      Undisturbed between →
      ∃ r, (first.answers history)[(before ++ (now, request) :: between).length]? = some (.reading r) ∧
        r.duration = l.duration ∧ r.created = now ∧
        r.remainingMillis.toInt = min (l.duration.nanoseconds / 1000000) Duration.maxMillis ∧
        r.remainingTime = some ⟨r.remainingMillis.toInt⟩) := by
  refine ⟨fun l => ⟨outcome_of_inForce first, fun h => h ▸ inForce_outcome first history⟩, ?_, ?_, ?_, ?_, ?_⟩
  · rintro before now after rfl
    exact ⟨_, inForce_outcome first before, answers_getElem? first before _ after⟩
  · rintro before q after rfl
    rw [answers_getElem?, Option.some_inj, serve_eq_done_iff]
  · rintro before now text after rfl hinvalid
    exact answers_of_refused first before after now hinvalid
  · rintro before now between later after rfl hbetween
    have hlater := answers_getElem? first (before ++ (now, .inspect) :: between) (later, .inspect) after
    rw [List.append_assoc, List.cons_append, outcome_append,
      outcome_of_undisturbed _ (undisturbed_inspect hbetween)] at hlater
    have hle := instant_le hclock
    exact ⟨_, _, answers_getElem? first before _ _, hlater, remainingMillis_antitone _ hle, isExpired_of_le _ hle⟩
  · rintro before now request l between after rfl hbegins hbetween
    have hreading := answers_getElem? first (before ++ (now, request) :: between) (now, .inspect) after
    have hcreated : l.created = now := by cases hbegins <;> rfl
    rw [List.append_assoc, List.cons_append, outcome_of_inForce first (.reset before hbegins hbetween)] at hreading
    refine ⟨_, hreading, rfl, hcreated, ?_, remainingTime?_eq l now⟩
    subst hcreated
    exact toInt_remainingMillis_created l

end Lease

namespace Sample

def seconds (n : Nat) : Instant := (Duration.ofSecs n).nanoseconds

def window : Lease := ⟨.ofSecs 1800, seconds 0⟩

def renewals : Lease.History := [
  (seconds 2, .resetMaxAge "later"),
  (seconds 3, .resetMaxAge " +060 "),
  (seconds 3, .inspect),
  (seconds 63, .inspect),
  (seconds 64, .resetMaxAge "-5"),
  (seconds 64, .inspect)]

end Sample

/-- The texts that are refused renew nothing. -/
theorem Lease.shown_over_history_renewed :
    (Sample.renewals.map Prod.fst).Pairwise (· ≤ ·) ∧
    InForce Sample.window Sample.renewals ⟨.ofSecs 60, Sample.seconds 3⟩ ∧
    (∃ r, (Sample.window.answers Sample.renewals)[2]? = some (.reading r) ∧ r.remainingMillis.toInt = 60000) ∧
    ∃ r s, (Sample.window.answers Sample.renewals)[3]? = some (.reading r) ∧ r.isExpired = true ∧
      (Sample.window.answers Sample.renewals)[5]? = some (.reading s) ∧ s.isExpired = true := by
  have hclock : (Sample.renewals.map Prod.fst).Pairwise (· ≤ ·) := by decide
  obtain ⟨hforce, -, -, -, hlater, hreset⟩ := shown_over_history Sample.window Sample.renewals hclock
  have hsixty : IsMaxAge " +060 " 60 := Numeral.read?_eq_some_iff.mp (by decide)
  have hrefused : Undisturbed [(Sample.seconds 64, .resetMaxAge "-5")] := by
    intro q hq l hl
    rw [List.mem_singleton.mp hq] at hl
    cases hl with
    | resetMaxAge _ h =>
      have hread : readMaxAge "-5" = .error (.invalidMaxAge "-5") := by decide
      cases hread.symm.trans (readMaxAge_of_isMaxAge h)
  obtain ⟨r, hr, -, -, hleft, -⟩ := hreset [_] _ _ _ [] _ rfl (.resetMaxAge _ hsixty) nofun
  obtain ⟨t, s, ht, hs, -, hexpired⟩ := hlater [_, _, _] _ [_] _ [] rfl hrefused
  have hshown : (Sample.window.answers Sample.renewals)[3]? =
      some (.reading (inspect ⟨.ofSecs 60, Sample.seconds 3⟩ (Sample.seconds 63))) := by decide
  have ht' : t = inspect ⟨.ofSecs 60, Sample.seconds 3⟩ (Sample.seconds 63) :=
    Answer.reading.inj (Option.some.inj (ht.symm.trans hshown))
  have htrue : t.isExpired = true := by
    rw [ht']
    decide
  exact ⟨hclock, (hforce _).mpr (by decide), ⟨r, hr, hleft⟩, t, s, ht, htrue, hs, hexpired htrue⟩

end DeviceDescription
