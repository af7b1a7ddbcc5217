import Mathlib.Data.List.Flatten
import Nftables.Proofs.Binary64
import Nftables.Proofs.Channel.Run

/-!
# Requests are whole frames

What a run puts into the stream of requests.  Each request that is delivered puts one frame into
it, and no other request puts a byte into it (`written_request`); so the stream has one reading as
frames.  A request that is delivered and not answered makes the channel unusable, hence is the last
one to be delivered (`deliveries_eq_append`).
-/

namespace Nftables

open Nftables.Frame (Bytes)

/-- Have bytes of a request reached the worker? -/
def Exchange.delivered (x : Exchange) : Bool :=
  !x.written.isEmpty

namespace Channel

/-! ## Times to wait -/

/-- A number above zero leaves time to wait. -/
def leavesTime : Value → Bool
  | .int n => 0 < n
  | .bool b => b
  | .float x => x.isPositive
  | _ => false

/-- A time that is not too long to be waited for. -/
def Waitable (timeout : Value) : Prop :=
  ∃ t, seconds timeout = .ok t ∧ checkWait t = .ok ()

instance (timeout : Value) : Decidable (Waitable timeout) :=
  match h : seconds timeout with
  | .error e => .isFalse fun ⟨_, ht, _⟩ ↦ by rw [h] at ht; cases ht
  | .ok t =>
    match hw : checkWait t with
    | .ok () => .isTrue ⟨t, h, hw⟩
    | .error e => .isFalse fun ⟨u, hu, hok⟩ ↦ by
        rw [h] at hu
        cases hu
        rw [hw] at hok
        cases hok

/-- Of the times that can be waited for, those above zero leave time. -/
theorem leavesTime_iff {timeout : Value} {t : Binary64} (ht : seconds timeout = .ok t)
    (hw : checkWait t = .ok ()) : leavesTime timeout = true ↔ t.isNonPositive = false := by
  cases timeout with
  | int n =>
    simp only [seconds] at ht
    split at ht
    case h_1 x hx =>
      cases ht
      have hsign := Binary64.isNonPositive_of_ofInt? hx
      cases hp : t.isNonPositive <;> simp [hp, leavesTime] at hsign ⊢ <;> omega
    case h_2 => cases ht
  | bool b =>
    cases ht
    cases b <;> decide
  | float x =>
    cases ht
    cases t with
    | finite s m e => cases s <;> simp [leavesTime, Binary64.isPositive, Binary64.isNonPositive]
    | infinite | nan => cases hw
  | _ => cases ht

theorem sendable_iff {payload : Bytes} {timeout : Value} :
    Sendable payload timeout ↔
      payload.length ≤ Frame.maxLength ∧ leavesTime timeout = true ∧ Waitable timeout := by
  constructor
  · rintro ⟨hlen, t, ht, hp, hw⟩
    exact ⟨hlen, (leavesTime_iff ht hw).mpr hp, t, ht, hw⟩
  · rintro ⟨hlen, hp, t, ht, hw⟩
    exact ⟨hlen, t, ht, (leavesTime_iff ht hw).mp hp, hw⟩

instance (payload : Bytes) (timeout : Value) : Decidable (Sendable payload timeout) :=
  decidable_of_iff' _ sendable_iff

/-! ## One request -/

/-- A request that is delivered puts its frame into the stream, and any other one nothing. -/
theorem written_request (c : Channel) (payload : Bytes) (timeout : Value) :
    (c.request payload timeout).2.written =
      if c.usable = true ∧ c.requestsClosed = false ∧ Sendable payload timeout then
        Frame.frame payload else [] := by
  obtain ⟨c', x, h, ha⟩ := exists_answered c payload timeout
  rw [h]
  cases ha with
  | unusable hc => simp [hc]
  | refused _ hs | expired _ hs => simp [hs]
  | notTaken _ _ hr => simp [hr]
  | replied hc hs hr | unanswered hc hs hr => rw [if_pos ⟨hc, hr, hs⟩]

theorem frame_ne_nil (p : Bytes) : Frame.frame p ≠ [] := by
  simp [Frame.frame, Frame.header]

/-- A request that is not delivered returns nothing. -/
theorem payload?_of_not_delivered {c : Channel} {payload : Bytes} {timeout : Value}
    (h : (c.request payload timeout).2.delivered = false) :
    (c.request payload timeout).2.payload? = none := by
  obtain ⟨c', x, hx, ha⟩ := exists_answered c payload timeout
  rw [hx] at h ⊢
  cases ha with
  | unusable | refused | expired | notTaken | unanswered => rfl
  | replied => simp [Exchange.delivered, frame_ne_nil] at h

/-- A request that is delivered and returns nothing leaves the channel unusable. -/
theorem usable_of_unanswered {c : Channel} {payload : Bytes} {timeout : Value}
    (hd : (c.request payload timeout).2.delivered = true)
    (hp : (c.request payload timeout).2.payload? = none) :
    (c.request payload timeout).1.usable = false := by
  obtain ⟨c', x, hx, ha⟩ := exists_answered c payload timeout
  rw [hx] at hd hp ⊢
  cases ha with
  | unusable | refused | expired | notTaken => simp [Exchange.delivered] at hd
  | replied => simp [Exchange.payload?] at hp
  | unanswered _ _ _ _ hst => exact (usable_eq_false_iff _).mpr hst

/-! ## Runs -/

/-- The bytes that a run has put into the stream of requests, in their order. -/
def input (c : Channel) (es : List Event) : Bytes :=
  (c.exchanges es).flatMap Exchange.written

/-- The requests, with their times to wait, that an event makes with time left while the channel is
usable and the worker still reads: at most one. -/
def newAsked (c : Channel) : Event → List (Bytes × Value)
  | .request payload timeout =>
    if c.usable && !c.requestsClosed && leavesTime timeout then [(payload, timeout)] else []
  | _ => []

/-- The requests of a run that are made with time left while the channel is usable and the worker
still reads. -/
def asked (c : Channel) : List Event → List (Bytes × Value)
  | [] => []
  | e :: es => c.newAsked e ++ (c.step e).1.asked es

/-- The messages of those requests that can be delivered. -/
def sent (c : Channel) (es : List Event) : List Bytes :=
  ((c.asked es).filter fun r ↦ Sendable r.1 r.2).map Prod.fst

/-- The exchanges of a run in which bytes have reached the worker. -/
def deliveries (c : Channel) (es : List Event) : List Exchange :=
  (c.exchanges es).filter Exchange.delivered

section Lemmas

variable (c : Channel) (e : Event) (es : List Event)

@[simp] theorem input_nil : c.input [] = [] := rfl
@[simp] theorem asked_nil : c.asked [] = [] := rfl
@[simp] theorem sent_nil : c.sent [] = [] := rfl
@[simp] theorem deliveries_nil : c.deliveries [] = [] := rfl

@[simp] theorem asked_cons : c.asked (e :: es) = c.newAsked e ++ (c.step e).1.asked es := rfl

theorem deliveries_cons : c.deliveries (e :: es) =
    (c.step e).2.toList.filter Exchange.delivered ++ (c.step e).1.deliveries es := by
  simp [deliveries]

theorem sent_cons : c.sent (e :: es) =
    ((c.newAsked e).filter fun r ↦ Sendable r.1 r.2).map Prod.fst ++ (c.step e).1.sent es := by
  simp [sent]

/-- One event delivers the messages that it asks for and that can be delivered. -/
theorem map_written_step : ((c.step e).2.toList.filter Exchange.delivered).map Exchange.written =
    (((c.newAsked e).filter fun r ↦ Sendable r.1 r.2).map Prod.fst).map Frame.frame := by
  cases e with
  | workerWrites | workerClosesReplies | workerClosesRequests | close => simp [step, newAsked]
  | request payload timeout =>
    have hw := written_request c payload timeout
    by_cases h : c.usable = true ∧ c.requestsClosed = false ∧ Sendable payload timeout
    · have ht := (sendable_iff.mp h.2.2).2.1
      rw [if_pos h] at hw
      simp [step, newAsked, Exchange.delivered, hw, frame_ne_nil, h, ht, -usable_eq_true_iff]
    · rw [if_neg h] at hw
      have hnone : (c.newAsked (.request payload timeout)).filter
          (fun r ↦ decide (Sendable r.1 r.2)) = [] := by
        simp only [newAsked]
        split
        case isTrue ha => simp_all
        case isFalse => rfl
      rw [hnone]
      simp [step, Exchange.delivered, hw]

/-- The frames that are delivered are those of the messages that are asked for and can be
delivered, in their order. -/
theorem map_written_deliveries :
    (c.deliveries es).map Exchange.written = (c.sent es).map Frame.frame := by
  induction es generalizing c with
  | nil => rfl
  | cons e es ih =>
    rw [deliveries_cons, sent_cons, List.map_append, List.map_append, map_written_step, ih]

/-- All bytes that reach the worker are those of deliveries. -/
theorem input_eq_flatten : c.input es = ((c.deliveries es).map Exchange.written).flatten := by
  simp only [input, deliveries, List.flatMap]
  generalize c.exchanges es = xs
  induction xs with
  | nil => rfl
  | cons x xs ih =>
    cases hd : x.delivered with
    | true => simp [hd, ih]
    | false =>
      have hnil : x.written = [] := by simpa [Exchange.delivered] using hd
      simp [hd, hnil, ih]

theorem input_eq_flatMap_frame : c.input es = (c.sent es).flatMap Frame.frame := by
  rw [input_eq_flatten, map_written_deliveries, List.flatMap]

end Lemmas

theorem deliveries_of_unusable {c : Channel} (h : c.usable = false) (es : List Event) :
    c.deliveries es = [] := by
  induction es generalizing c with
  | nil => rfl
  | cons e es ih =>
    rw [deliveries_cons, ih (step_of_unusable h).1, List.append_nil]
    cases e with
    | workerWrites | workerClosesReplies | workerClosesRequests | close => rfl
    | request payload timeout =>
      have hw := written_request c payload timeout
      simp [step, Exchange.delivered, hw, h]

/-- **One request at a time.**  The requests that a run delivers are answered, each by the reply in
its place, but perhaps for the last one; and then the channel is not usable any more. -/
theorem deliveries_eq_append (c : Channel) (es : List Event) :
    ∃ answered unanswered, c.deliveries es = answered ++ unanswered ∧
      answered.map Exchange.payload? = (c.replies es).map some ∧
      unanswered.length ≤ 1 ∧ (∀ x ∈ unanswered, x.payload? = none) ∧
      ((c.after es).usable = true → unanswered = []) := by
  induction es generalizing c with
  | nil => exact ⟨[], [], rfl, rfl, Nat.zero_le _, by simp, fun _ ↦ rfl⟩
  | cons e es ih =>
    obtain ⟨answered, unanswered, heq, hanswered, hone, hnone, husable⟩ := ih (c.step e).1
    rw [deliveries_cons, replies_cons, after_cons, heq]
    cases e with
    | workerWrites | workerClosesReplies | workerClosesRequests | close =>
      exact ⟨answered, unanswered, rfl, hanswered, hone, hnone, husable⟩
    | request payload timeout =>
      simp only [step, newReplies, Option.toList_some] at *
      cases hd : (c.request payload timeout).2.delivered with
      | false =>
        have hp := payload?_of_not_delivered hd
        exact ⟨answered, unanswered, by simp [hd], by simp [hp, hanswered], hone, hnone, husable⟩
      | true =>
        cases hp : (c.request payload timeout).2.payload? with
        | some p =>
          exact ⟨(c.request payload timeout).2 :: answered, unanswered, by simp [hd],
            by simp [hp, hanswered], hone, hnone, husable⟩
        | none =>
          -- nothing is delivered after a request that has no reply
          have hu := usable_of_unanswered hd hp
          have hnil : answered ++ unanswered = [] := heq ▸ deliveries_of_unusable hu es
          refine ⟨[], [(c.request payload timeout).2], ?_, ?_, Nat.le_refl _, by simpa using hp, ?_⟩
          · simp [hd, List.append_eq_nil_iff.mp hnil]
          · simp [hp, replies_of_unusable hu]
          · rw [after_of_unusable hu]
            exact fun h ↦ absurd h Bool.false_ne_true

/-! ## The stream of requests -/

theorem length_le_of_mem_sent {c : Channel} {es : List Event} {p : Bytes} (h : p ∈ c.sent es) :
    p.length ≤ Frame.maxLength := by
  simp only [sent, List.mem_map, List.mem_filter, decide_eq_true_eq] at h
  obtain ⟨r, ⟨-, hs⟩, rfl⟩ := h
  exact hs.1

theorem leavesTime_of_mem_asked {c : Channel} {es : List Event} {r : Bytes × Value}
    (h : r ∈ c.asked es) : leavesTime r.2 = true := by
  induction es generalizing c with
  | nil => cases h
  | cons e es ih =>
    rw [asked_cons, List.mem_append] at h
    rcases h with h | h
    · cases e with
      | workerWrites | workerClosesReplies | workerClosesRequests | close => cases h
      | request payload timeout =>
        simp only [newAsked] at h
        split at h
        case isTrue ha =>
          obtain rfl := List.mem_singleton.mp h
          simp_all
        case isFalse => cases h
    · exact ih h

/-- Frames that are left out are missed: no frame is empty. -/
theorem flatMap_frame_filter_eq_iff {rs : List (Bytes × Value)} {f : Bytes × Value → Bool} :
    (rs.filter f).flatMap (fun r ↦ Frame.frame r.1) = rs.flatMap (fun r ↦ Frame.frame r.1) ↔
      ∀ r ∈ rs, f r = true := by
  refine ⟨fun h ↦ ?_, fun h ↦ by rw [List.filter_eq_self.mpr h]⟩
  induction rs with
  | nil => simp
  | cons r rs ih =>
    cases hf : f r with
    | true =>
      rw [List.filter_cons_of_pos hf, List.flatMap_cons, List.flatMap_cons,
        List.append_cancel_left_eq] at h
      exact List.forall_mem_cons.mpr ⟨hf, ih h⟩
    | false =>
      have hsub : (rs.filter f).Sublist rs := List.filter_sublist
      have hle := (hsub.flatMap fun r ↦ Frame.frame r.1).length_le
      rw [List.filter_cons_of_neg (by simp [hf])] at h
      rw [h, List.flatMap_cons, List.length_append, Frame.length_frame] at hle
      omega

/-- **The stream of requests.**  In every run, whatever its events and their order:

* what reaches the worker is the frames of the requests that are made with time left while the
  channel is usable and the worker reads, if they fit and their time can be waited for; it is the
  frames of all of them exactly if each of them does;
* a request of an unusable channel or without time left puts no byte into the stream;
* the stream has one reading as frames;
* as many requests are delivered as replies are returned while the channel is usable, and never more
  than one beyond that: the last one, which then has no reply. -/
theorem input_is_frames (es : List Event) :
    input {} es = (sent {} es).flatMap Frame.frame ∧
    (input {} es = (asked {} es).flatMap (fun r ↦ Frame.frame r.1) ↔
      ∀ r ∈ asked {} es, r.1.length ≤ Frame.maxLength ∧ Waitable r.2) ∧
    (∀ (c : Channel) (payload : Bytes) (timeout : Value),
      c.usable = false ∨ leavesTime timeout = false →
        (c.request payload timeout).2.written = []) ∧
    (∀ ps : List Bytes, (∀ p ∈ ps, p.length ≤ Frame.maxLength) →
      input {} es = ps.flatMap Frame.frame → ps = sent {} es) ∧
    ((after {} es).usable = true → (sent {} es).length = (replies {} es).length) ∧
    (sent {} es).length ≤ (replies {} es).length + 1 ∧
    ∃ answered unanswered : List Exchange,
      (answered ++ unanswered).map Exchange.written = (sent {} es).map Frame.frame ∧
      answered.map Exchange.payload? = (replies {} es).map some ∧
      unanswered.length ≤ 1 ∧ ∀ x ∈ unanswered, x.payload? = none := by
  have hinput := input_eq_flatMap_frame {} es
  obtain ⟨answered, unanswered, heq, hanswered, hone, hnone, husable⟩ := deliveries_eq_append {} es
  have hsent := map_written_deliveries {} es
  rw [heq] at hsent
  have hlength : answered.length + unanswered.length = (sent {} es).length := by
    simpa using congrArg List.length hsent
  have hreplies : answered.length = (replies {} es).length := by
    simpa using congrArg List.length hanswered
  refine ⟨hinput, ?_, fun c payload timeout h ↦ ?_, fun ps hps h ↦ ?_, fun h ↦ ?_, ?_,
    answered, unanswered, hsent, hanswered, hone, hnone⟩
  · have hframes : (sent {} es).flatMap Frame.frame =
        ((asked {} es).filter fun r ↦ Sendable r.1 r.2).flatMap fun r ↦ Frame.frame r.1 := by
      simp [sent, List.flatMap_map]
    rw [hinput, hframes, flatMap_frame_filter_eq_iff]
    refine forall₂_congr fun r hr ↦ ?_
    simp [sendable_iff, leavesTime_of_mem_asked hr]
  · rw [written_request, if_neg]
    rintro ⟨hu, -, hs⟩
    rcases h with h | h
    · simp [hu] at h
    · simp [(sendable_iff.mp hs).2.1] at h
  · -- both are what the stream is read as
    have hmessages := Frame.messages_flatMap_frame_append hps []
    rw [← h, hinput, Frame.messages_flatMap_frame_append fun _ ↦ length_le_of_mem_sent] at hmessages
    exact (List.append_cancel_right hmessages).symm
  · rw [husable h, List.length_nil] at hlength
    omega
  · omega

/-- A reply that is there, and a request for it that may wait for more than three hundred years. -/
def longWait : List Event :=
  [.workerWrites (Frame.frame [111, 107]), .request [120] (.int 10000000000)]

/-- A request is not delivered if the time that it leaves is too long to be waited for. -/
theorem longWait_is_not_delivered :
    asked {} longWait = [([120], .int 10000000000)] ∧ (after {} longWait).usable = true ∧
      input {} longWait = [] ∧
      input {} longWait ≠ (asked {} longWait).flatMap (fun r ↦ Frame.frame r.1) := by
  have hasked : asked {} longWait = [([120], .int 10000000000)] := by rfl
  have hinput : input {} longWait = [] := by decide +kernel
  refine ⟨hasked, by decide +kernel, hinput, ?_⟩
  rw [hasked, hinput]
  decide

end Channel
end Nftables
