import DeviceDescription.Proofs.LeaseHistory
import DeviceDescription.RootDevice

/-!
# The text of a document is fetched once

A fetcher may fail as often as it likes. Each call for the text asks it again until it succeeds. What it returned then
is the text for good, and so is a text that was known from the start.
-/
namespace DeviceDescription

open Traversal

namespace DocumentText

variable (fetcher : Fetcher)

/-- What a number of calls in a row return, and what is known after them. -/
def reads (d : DocumentText) (k : Nat) : List (Except DescriptionError Text) × DocumentText :=
  serveAll (fun d (_ : Unit) => d.read fetcher) d (List.replicate k ())

/-- What the fetcher comes to at a call, as it is passed on. -/
def outcomeAt (call : Nat) : Except DescriptionError Text := (fetcher call).mapError .fetch

theorem reads_succ (d : DocumentText) (k : Nat) :
    d.reads fetcher (k + 1) =
      ((d.read fetcher).1 :: ((d.read fetcher).2.reads fetcher k).1, ((d.read fetcher).2.reads fetcher k).2) := rfl

theorem reads_add (d : DocumentText) (j k : Nat) :
    d.reads fetcher (j + k) =
      ((d.reads fetcher j).1 ++ ((d.reads fetcher j).2.reads fetcher k).1,
        ((d.reads fetcher j).2.reads fetcher k).2) := by
  rw [reads, List.replicate_add, serveAll_append]
  rfl

/-- A known text is returned, and no call reaches the fetcher. -/
@[simp] theorem reads_of_known (t : Text) (calls k : Nat) :
    reads fetcher ⟨some t, calls⟩ k = (List.replicate k (.ok t), ⟨some t, calls⟩) := by
  induction k with
  | zero => rfl
  | succ k ih =>
    have hread : read ⟨some t, calls⟩ fetcher = (.ok t, ⟨some t, calls⟩) := rfl
    rw [reads_succ, hread, ih]
    rfl

variable {fetcher}

private theorem read_of_error {calls : Nat} {e : FetchError} (h : fetcher calls = .error e) :
    read ⟨none, calls⟩ fetcher = (outcomeAt fetcher calls, ⟨none, calls + 1⟩) := by
  simp only [read, outcomeAt, h, Except.mapError]

private theorem read_of_ok {calls : Nat} {t : Text} (h : fetcher calls = .ok t) :
    read ⟨none, calls⟩ fetcher = (.ok t, ⟨some t, calls + 1⟩) := by
  simp only [read, h]

/-- Each failure is passed on to the call that met it, and is forgotten. -/
theorem reads_of_errors {calls k : Nat} (h : ∀ i < k, ∃ e, fetcher (calls + i) = .error e) :
    reads fetcher ⟨none, calls⟩ k = ((List.range' calls k).map (outcomeAt fetcher), ⟨none, calls + k⟩) := by
  induction k generalizing calls with
  | zero => rfl
  | succ k ih =>
    obtain ⟨e, he⟩ : ∃ e, fetcher calls = .error e := h 0 k.succ_pos
    have hlater : ∀ i < k, ∃ e, fetcher (calls + 1 + i) = .error e := by
      intro i hi
      rw [Nat.add_assoc, Nat.add_comm 1 i]
      exact h (i + 1) (Nat.succ_lt_succ hi)
    rw [reads_succ, read_of_error he, ih hlater, List.range'_succ, List.map_cons, Nat.add_assoc, Nat.add_comm 1 k]

/-- The first success ends the failures, and no call after it reaches the fetcher. -/
theorem reads_of_first {n : Nat} {t : Text} (hsuccess : fetcher n = .ok t)
    (hbefore : ∀ i < n, ∃ e, fetcher i = .error e) (k : Nat) :
    (reads fetcher ⟨none, 0⟩ k).1 =
      (List.range (min k n)).map (outcomeAt fetcher) ++ List.replicate (k - n) (.ok t) ∧
    (reads fetcher ⟨none, 0⟩ k).2.calls = min k (n + 1) := by
  have hfailures {j : Nat} (hj : j ≤ n) :
      reads fetcher ⟨none, 0⟩ j = ((List.range j).map (outcomeAt fetcher), ⟨none, j⟩) := by
    rw [reads_of_errors fun i hi => ?_, List.range_eq_range', Nat.zero_add]
    rw [Nat.zero_add]
    exact hbefore i (hi.trans_le hj)
  rcases le_or_gt k n with hk | hk
  · rw [hfailures hk, Nat.min_eq_left hk, Nat.sub_eq_zero_of_le hk, Nat.min_eq_left (hk.trans n.le_succ)]
    simp
  · obtain ⟨rest, rfl⟩ := Nat.exists_eq_add_of_lt hk
    have hcalls : min (n + rest + 1) (n + 1) = n + 1 := by omega
    -- The failures, the call that succeeds, and the calls that find the text known.
    rw [hcalls, Nat.add_assoc, reads_add, hfailures le_rfl, reads_succ, read_of_ok hsuccess, reads_of_known,
      Nat.min_eq_right (Nat.le_add_right n _), Nat.add_sub_cancel_left, List.replicate_succ]
    exact ⟨rfl, rfl⟩

end DocumentText

namespace RootDevice

inductive Request where
  | text
  | lease (request : Lease.Request)
  | description
  deriving DecidableEq, Repr

abbrev History := List (Instant × Request)

inductive Answer where
  | text (result : Except DescriptionError Text)
  | lease (answer : Lease.Answer)
  | description (d : Description)

def Answer.text? : Answer → Option (Except DescriptionError Text)
  | .text result => some result
  | _ => none

variable (fetcher : Fetcher)

def serve (r : RootDevice) : Instant × Request → Answer × RootDevice
  | (_, .text) => (.text (r.readText fetcher).1, (r.readText fetcher).2)
  | (now, .lease (.reset duration)) => (.lease .done, r.reset duration now)
  | (now, .lease (.resetMaxAge text)) => match r.resetMaxAge text now with
    | .ok next => (.lease .done, next)
    | .error e => (.lease (.refused e), r)
  | (now, .lease .inspect) => (.lease (.reading (r.lease.inspect now)), r)
  | (_, .description) => (.description r.description, r)

def texts (r : RootDevice) (history : History) : List (Except DescriptionError Text) :=
  (serveAll (serve fetcher) r history).1.filterMap Answer.text?

def outcome (r : RootDevice) (history : History) : RootDevice :=
  (serveAll (serve fetcher) r history).2

def textRequests (history : History) : Nat := history.countP fun q => q.2 = .text

theorem serve_lease (r : RootDevice) (now : Instant) (q : Lease.Request) :
    r.serve fetcher (now, .lease q) =
      (.lease (r.lease.serve (now, q)).1, { r with lease := (r.lease.serve (now, q)).2 }) := by
  cases q with
  | reset duration => rfl
  | resetMaxAge text =>
    rw [serve, resetMaxAge, Lease.serve]
    cases r.lease.resetMaxAge text now <;> rfl
  | inspect => rfl

/-- Whatever else is asked for, the text is read as if the calls for it came in a row. -/
theorem texts_eq_reads (r : RootDevice) (history : History) :
    (r.texts fetcher history, (r.outcome fetcher history).document) =
      r.document.reads fetcher (textRequests history) := by
  induction history generalizing r with
  | nil => rfl
  | cons q history ih =>
    obtain ⟨now, request⟩ := q
    cases request with
    | text =>
      have htail := ih (r.serve fetcher (now, .text)).2
      rw [textRequests, List.countP_cons_of_pos (by simp), ← textRequests, DocumentText.reads_succ]
      exact congrArg (fun run => ((r.document.read fetcher).1 :: run.1, run.2)) htail
    | lease request =>
      have htail := ih (r.serve fetcher (now, .lease request)).2
      rw [textRequests, List.countP_cons_of_neg (by simp), ← textRequests]
      rw [serve_lease] at htail
      rw [texts, outcome, serveAll, serve_lease]
      exact htail
    | description =>
      rw [textRequests, List.countP_cons_of_neg (by simp), ← textRequests]
      exact ih r

private theorem document_of_ofContext [InternationalNames] {a : Announcement} {now : Instant}
    {document : DocumentContext} {r : RootDevice} (h : ofContext a now document = .ok r) :
    r.document = ⟨a.documentText, 0⟩ := by
  unfold ofContext at h
  obtain ⟨location, -, h⟩ := bind_eq_ok h
  obtain ⟨duration, -, h⟩ := bind_eq_ok h
  obtain ⟨description, -, h⟩ := bind_eq_ok h
  cases h
  rfl

private theorem document_of_ofXml [InternationalNames] {a : Announcement} {now : Instant} {xml : Text} {r : RootDevice}
    (h : ofXml a now xml = .ok r) : r.document = ⟨some (a.documentText.getD xml), 0⟩ := by
  rw [ofXml] at h
  split at h
  · cases h
  · rw [document_of_ofContext h, Announcement.withText]
    cases a.documentText <;> rfl

section Histories
variable {fetcher} {r : RootDevice} (history : History)

private theorem texts_of_document {d : DocumentText} (hd : r.document = d) :
    r.texts fetcher history = (d.reads fetcher (textRequests history)).1 ∧
      (r.outcome fetcher history).document = (d.reads fetcher (textRequests history)).2 := by
  rw [← hd, ← texts_eq_reads]
  exact ⟨rfl, rfl⟩

private theorem texts_of_known {t : Text} (hd : r.document = ⟨some t, 0⟩) :
    r.texts fetcher history = List.replicate (textRequests history) (.ok t) ∧
      (r.outcome fetcher history).document.calls = 0 := by
  obtain ⟨htexts, hdocument⟩ := texts_of_document history hd
  rw [htexts, hdocument, DocumentText.reads_of_known]
  exact ⟨rfl, rfl⟩

end Histories

/-- Over every history of requests, a text that was announced, or else that of the document that was read, is what
every call for the text returns, and the fetcher is not called. Where no text is known, each call before the first
success of the fetcher returns the failure that it met, the call that meets the success returns its text and so do all
calls after it. The fetcher is called by each call up to the first success and by none after it. -/
theorem texts_over_history [InternationalNames] (fetcher : Fetcher) (a : Announcement) (now : Instant)
    (history : History) :
    (∀ xml r, ofXml a now xml = .ok r →
      r.texts fetcher history = List.replicate (textRequests history) (.ok (a.documentText.getD xml)) ∧
      (r.outcome fetcher history).document.calls = 0) ∧
    (∀ document r t, ofContext a now document = .ok r → a.documentText = some t →
      r.texts fetcher history = List.replicate (textRequests history) (.ok t) ∧
      (r.outcome fetcher history).document.calls = 0) ∧
    (∀ document r n t, ofContext a now document = .ok r → a.documentText = none → fetcher n = .ok t →
      (∀ i < n, ∃ e, fetcher i = .error e) →
      r.texts fetcher history =
        (List.range (min (textRequests history) n)).map (fun i => (fetcher i).mapError .fetch) ++
          List.replicate (textRequests history - n) (.ok t) ∧
      (r.outcome fetcher history).document.calls = min (textRequests history) (n + 1)) ∧
    ∀ document r, ofContext a now document = .ok r → a.documentText = none → (∀ i, ∃ e, fetcher i = .error e) →
      r.texts fetcher history =
        (List.range (textRequests history)).map (fun i => (fetcher i).mapError .fetch) ∧
      (r.outcome fetcher history).document.calls = textRequests history := by
  refine ⟨fun xml r hr => texts_of_known history (document_of_ofXml hr), ?_, ?_, ?_⟩
  · intro document r t hr hannounced
    exact texts_of_known history (by rw [document_of_ofContext hr, hannounced])
  · intro document r n t hr hunknown hsuccess hbefore
    have hd : r.document = ⟨none, 0⟩ := by rw [document_of_ofContext hr, hunknown]
    obtain ⟨htexts, hdocument⟩ := texts_of_document history hd
    rw [htexts, hdocument]
    exact DocumentText.reads_of_first hsuccess hbefore _
  · intro document r hr hunknown hnever
    have hd : r.document = ⟨none, 0⟩ := by rw [document_of_ofContext hr, hunknown]
    obtain ⟨htexts, hdocument⟩ := texts_of_document history hd
    rw [htexts, hdocument, DocumentText.reads_of_errors fun i _ => hnever _, List.range_eq_range', Nat.zero_add]
    exact ⟨rfl, rfl⟩

end RootDevice

namespace Sample

def hesitant : Fetcher
  | 0 => .error (.unsupportedScheme "first")
  | 1 => .error (.unsupportedScheme "second")
  | n => .ok (Numeral.write n)

def inquiries : RootDevice.History :=
  [(0, .text), (1, .lease (.resetMaxAge "5")), (2, .text), (3, .description), (4, .text), (5, .lease .inspect),
    (6, .text)]

end Sample

open InternationalNames in
theorem RootDevice.texts_over_history_hesitant :
    ∃ r, ofContext Sample.announcement 0 Sample.padded = .ok r ∧
      r.texts Sample.hesitant Sample.inquiries =
        [.error (.fetch (.unsupportedScheme "first")), .error (.fetch (.unsupportedScheme "second")), .ok "2",
          .ok "2"] ∧
      (r.outcome Sample.hesitant Sample.inquiries).document.calls = 3 := by
  have hbuilt : (ofContext Sample.announcement 0 Sample.padded).toOption.map (fun _ => ()) = some () := by
    decide +kernel
  obtain ⟨r, hr, -⟩ := exists_ok_of_toOption_map hbuilt
  have hfailures : ∀ i < 2, ∃ e, Sample.hesitant i = .error e := by
    intro i hi
    interval_cases i
    · exact ⟨_, rfl⟩
    · exact ⟨_, rfl⟩
  have hruns := (texts_over_history Sample.hesitant Sample.announcement 0 Sample.inquiries).2.2.1 Sample.padded r 2 _
    hr rfl rfl hfailures
  exact ⟨r, hr, hruns⟩

end DeviceDescription
