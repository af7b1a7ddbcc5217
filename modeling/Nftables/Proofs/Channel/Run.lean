import Nftables.Channel
import Nftables.Proofs.Frame

/-!
# Runs of a channel

What a request can do is said once, by `Answered`, and what a run is made of by `after`,
`exchanges` and `output`.  The bytes of the worker are conserved along every run
(`output_eq_flatMap_frame_append`): those that are not read yet follow the frames of the replies
that have been returned, with nothing in between.
-/

namespace Nftables

open Nftables.Frame (Bytes)

/-- The message that a request has returned, if it has not failed. -/
def Exchange.payload? (x : Exchange) : Option Bytes :=
  match x.reply with
  | .ok p => some p
  | .error _ => none

namespace Channel

/-! ## Requests -/

/-- A message that fits into a frame, with a time that is not over and that can be waited for. -/
def Sendable (payload : Bytes) (timeout : Value) : Prop :=
  payload.length ≤ Frame.maxLength ∧
    ∃ t, seconds timeout = .ok t ∧ t.isNonPositive = false ∧ checkWait t = .ok ()

/-- What comes of a request: the channel after it and the exchange. -/
inductive Answered (c : Channel) (payload : Bytes) (timeout : Value) :
    Channel → Exchange → Prop where
  | unusable {b : Breakdown} (hc : c.usable = false) :
      Answered c payload timeout c { reply := .error (.transport (.down b)) }
  | refused {e : RequestError} (hc : c.usable = true) (hs : ¬ Sendable payload timeout)
      (he : ∀ t, e ≠ .transport t) : Answered c payload timeout c { reply := .error e }
  | expired {t : Binary64} (hc : c.usable = true) (hs : ¬ Sendable payload timeout)
      (ht : seconds timeout = .ok t) (hp : t.isNonPositive = true) :
      Answered c payload timeout { c with status := .outOfSync }
        { reply := .error (.transport .timedOut), log := [timeoutRecord t] }
  | notTaken (hc : c.usable = true) (hs : Sendable payload timeout) (hr : c.requestsClosed = true) :
      Answered c payload timeout { c with status := .closed }
        { reply := .error (.transport (.down .requestsClosed)) }
  | replied {p rest : Bytes} (hc : c.usable = true) (hs : Sendable payload timeout)
      (hr : c.requestsClosed = false) (hd : Frame.decode? c.pending = some (p, rest)) :
      Answered c payload timeout { c with pending := rest }
        { written := Frame.frame payload, reply := .ok p,
          log := [exchangeRecord payload.length p.length] }
  | unanswered {status : ChannelStatus} {e : TransportError} {log : List Log.Record}
      (hc : c.usable = true) (hs : Sendable payload timeout) (hr : c.requestsClosed = false)
      (hd : Frame.decode? c.pending = none) (hst : status ≠ .usable) :
      Answered c payload timeout { c with pending := [], status := status }
        { written := Frame.frame payload, reply := .error (.transport e), log := log }

@[simp] theorem usable_eq_true_iff (c : Channel) : c.usable = true ↔ c.status = .usable := by
  simp [usable]

theorem usable_eq_false_iff (c : Channel) : c.usable = false ↔ c.status ≠ .usable := by
  simp [usable]

/-- A timeout that is no time to wait is not an error of the transport. -/
theorem seconds_error {v : Value} {e : RequestError} (h : seconds v = .error e)
    (t : TransportError) : e ≠ .transport t := by
  rintro rfl
  cases v <;> simp only [seconds] at h <;> first | cases h | (split at h <;> cases h)

theorem checkWait_error {t : Binary64} {e : RequestError} (h : checkWait t = .error e)
    (f : TransportError) : e ≠ .transport f := by
  rintro rfl
  simp only [checkWait] at h
  split at h
  case h_3 =>
    split at h
    · split at h <;> cases h
    · cases h
  all_goals cases h

/-- A request that has been written is answered by what is pending. -/
theorem receive_answered {c : Channel} {payload : Bytes} {timeout : Value} {t : Binary64}
    (hc : c.usable = true) (hs : Sendable payload timeout) (hr : c.requestsClosed = false) :
    Answered c payload timeout (c.receive payload (Frame.frame payload) t).1
      (c.receive payload (Frame.frame payload) t).2 := by
  simp only [receive]
  cases hd : Frame.decode? c.pending with
  | some r => exact .replied hc hs hr hd
  | none =>
    simp only
    split
    · exact .unanswered hc hs hr hd (by simp)
    · exact .unanswered hc hs hr hd (by simp)

theorem request_answered (c : Channel) (payload : Bytes) (timeout : Value) :
    Answered c payload timeout (c.request payload timeout).1 (c.request payload timeout).2 := by
  simp only [request]
  cases hst : c.status with
  | closed => exact .unusable ((usable_eq_false_iff c).mpr (by simp [hst]))
  | outOfSync => exact .unusable ((usable_eq_false_iff c).mpr (by simp [hst]))
  | usable =>
    have hc : c.usable = true := (usable_eq_true_iff c).mpr hst
    cases ht : seconds timeout with
    | error e =>
      have hs : ¬ Sendable payload timeout := by
        rintro ⟨-, t, h, -⟩
        rw [ht] at h
        cases h
      exact .refused hc hs (seconds_error ht)
    | ok t =>
      by_cases hlen : Frame.maxLength < payload.length
      · simp only [Frame.encode, if_pos hlen]
        exact .refused hc (fun hs ↦ by have := hs.1; omega) (by simp)
      · simp only [Frame.encode, if_neg hlen]
        have key : Sendable payload timeout ↔ t.isNonPositive = false ∧ checkWait t = .ok () := by
          simp only [Sendable, ht]
          refine ⟨fun ⟨_, _, h, hp, hw⟩ ↦ ?_, fun h ↦ ⟨by omega, t, rfl, h⟩⟩
          cases h
          exact ⟨hp, hw⟩
        cases hp : t.isNonPositive with
        | true => exact .expired hc (by simp [key, hp]) ht hp
        | false =>
          simp only [Bool.false_eq_true, if_false]
          cases hw : checkWait t with
          | error e => exact .refused hc (by simp [key, hw]) (checkWait_error hw)
          | ok u =>
            have hs := key.mpr ⟨hp, hw⟩
            simp only [exchange]
            split
            case isTrue hr => exact .notTaken hc hs hr
            case isFalse hr => exact receive_answered hc hs (by simpa using hr)

theorem exists_answered (c : Channel) (payload : Bytes) (timeout : Value) :
    ∃ c' x, c.request payload timeout = (c', x) ∧ Answered c payload timeout c' x :=
  ⟨_, _, rfl, request_answered c payload timeout⟩

/-- A request that can be sent returns the first message that is pending. -/
theorem request_of_decode? {c : Channel} {payload p rest : Bytes} {timeout : Value}
    (hc : c.usable = true) (hs : Sendable payload timeout) (hr : c.requestsClosed = false)
    (hd : Frame.decode? c.pending = some (p, rest)) :
    (c.request payload timeout).1.usable = true ∧ (c.request payload timeout).2.reply = .ok p := by
  obtain ⟨c', x, h, ha⟩ := exists_answered c payload timeout
  rw [h]
  cases ha with
  | unusable hc' => simp [hc] at hc'
  | refused _ hs' | expired _ hs' => exact absurd hs hs'
  | notTaken _ _ hr' => simp [hr] at hr'
  | replied _ _ _ hd' =>
    rw [hd] at hd'
    cases hd'
    exact ⟨hc, rfl⟩
  | unanswered _ _ _ hd' =>
    rw [hd] at hd'
    cases hd'

/-! ## Runs -/

/-- The channel after a run. -/
def after (c : Channel) (es : List Event) : Channel :=
  es.foldl (fun c e ↦ (c.step e).1) c

/-- The exchanges of a run, one for each request. -/
def exchanges (c : Channel) : List Event → List Exchange
  | [] => []
  | e :: es => (c.step e).2.toList ++ (c.step e).1.exchanges es

/-- The messages that an event returns: at most one. -/
def newReplies (c : Channel) (e : Event) : List Bytes :=
  (c.step e).2.toList.filterMap Exchange.payload?

/-- The messages that the requests of a run have returned. -/
def replies (c : Channel) (es : List Event) : List Bytes :=
  (c.exchanges es).filterMap Exchange.payload?

/-- The bytes that an event puts into the stream of replies; none once it is closed. -/
def newBytes (c : Channel) : Event → Bytes
  | .workerWrites bs => if c.repliesClosed then [] else bs
  | _ => []

/-- All bytes that the worker has put into the stream of replies, in their order. -/
def output (c : Channel) : List Event → Bytes
  | [] => []
  | e :: es => c.newBytes e ++ (c.step e).1.output es

section Lemmas

variable (c : Channel) (e : Event) (es fs : List Event)

@[simp] theorem after_nil : c.after [] = c := rfl
@[simp] theorem after_cons : c.after (e :: es) = (c.step e).1.after es := rfl
@[simp] theorem exchanges_nil : c.exchanges [] = [] := rfl
@[simp] theorem exchanges_cons :
    c.exchanges (e :: es) = (c.step e).2.toList ++ (c.step e).1.exchanges es := rfl
@[simp] theorem replies_nil : c.replies [] = [] := rfl
@[simp] theorem output_nil : c.output [] = [] := rfl
@[simp] theorem output_cons : c.output (e :: es) = c.newBytes e ++ (c.step e).1.output es := rfl

@[simp] theorem replies_cons :
    c.replies (e :: es) = c.newReplies e ++ (c.step e).1.replies es := by
  simp [replies, newReplies]

theorem after_append : c.after (es ++ fs) = (c.after es).after fs :=
  List.foldl_append

end Lemmas

/-! ## One event -/

/-- An event after which no request is accepted: the channel is closed, or a request fails with an
error of the transport. -/
def Disables (c : Channel) (e : Event) : Prop :=
  e = .close ∨ ∃ x t, (c.step e).2 = some x ∧ x.reply = .error (.transport t)

/-- While a channel is usable, each event moves bytes in one way only: new ones are added at the end
of what is pending, and returned messages have been taken off its start as whole frames. -/
theorem pending_append_newBytes {c : Channel} {e : Event} (h : (c.step e).1.usable = true) :
    c.pending ++ c.newBytes e =
      (c.newReplies e).flatMap Frame.frame ++ (c.step e).1.pending := by
  cases e with
  | workerWrites bs =>
    simp only [step, newBytes, newReplies, Option.toList_none, List.filterMap_nil,
      List.flatMap_nil, List.nil_append]
    split
    · simp
    · rfl
  | workerClosesReplies | workerClosesRequests | close =>
    simp [step, newBytes, newReplies]
  | request payload timeout =>
    obtain ⟨c', x, hx, ha⟩ := exists_answered c payload timeout
    simp only [step, hx, newBytes, newReplies, List.append_nil] at h ⊢
    cases ha with
    | unusable | refused => simp [Exchange.payload?]
    | expired | notTaken => simp at h
    | replied _ _ _ hd => simpa [Exchange.payload?] using (Frame.eq_of_decode? hd).2
    | unanswered _ _ _ _ hst => exact absurd ((usable_eq_true_iff _).mp h) hst

/-- What is returned fits into a frame. -/
theorem length_le_of_mem_newReplies {c : Channel} {e : Event} {p : Bytes}
    (h : p ∈ c.newReplies e) : p.length ≤ Frame.maxLength := by
  cases e with
  | workerWrites | workerClosesReplies | workerClosesRequests | close =>
    simp [newReplies, step] at h
  | request payload timeout =>
    obtain ⟨c', x, hx, ha⟩ := exists_answered c payload timeout
    simp only [newReplies, step, hx] at h
    cases ha with
    | replied _ _ _ hd =>
      obtain rfl : p = _ := by simpa [Exchange.payload?] using h
      exact (Frame.eq_of_decode? hd).1
    | unusable | refused | expired | notTaken | unanswered => simp [Exchange.payload?] at h

/-- A channel that is not usable stays so, and every request fails. -/
theorem step_of_unusable {c : Channel} {e : Event} (h : c.usable = false) :
    (c.step e).1.usable = false ∧
      ∀ x ∈ (c.step e).2, ∃ b, x.reply = .error (.transport (.down b)) := by
  cases e with
  | workerWrites bs =>
    refine ⟨?_, by simp [step]⟩
    simp only [step]
    split <;> exact h
  | workerClosesReplies | workerClosesRequests => exact ⟨h, by simp [step]⟩
  | close => exact ⟨rfl, by simp [step]⟩
  | request payload timeout =>
    obtain ⟨c', x, hx, ha⟩ := exists_answered c payload timeout
    simp only [step, hx, Option.mem_some_iff, forall_eq']
    cases ha with
    | unusable => exact ⟨h, _, rfl⟩
    | refused hc | expired hc | notTaken hc | replied hc | unanswered hc => simp [h] at hc

/-- An event that disables a channel leaves it unusable. -/
theorem usable_step_of_disables {c : Channel} {e : Event} (h : c.Disables e) :
    (c.step e).1.usable = false := by
  rcases h with rfl | ⟨x, t, hx, hreply⟩
  · rfl
  · cases e with
    | workerWrites | workerClosesReplies | workerClosesRequests | close => simp [step] at hx
    | request payload timeout =>
      obtain ⟨c', y, hy, ha⟩ := exists_answered c payload timeout
      simp only [step, hy, Option.some.injEq] at hx ⊢
      subst hx
      cases ha with
      | unusable hc => exact hc
      | refused _ _ he =>
        cases hreply
        exact absurd rfl (he t)
      | expired | notTaken => rfl
      | replied => cases hreply
      | unanswered _ _ _ _ hst => exact (usable_eq_false_iff _).mpr hst

/-- An event that leaves a channel unusable returns nothing. -/
theorem newReplies_of_unusable {c : Channel} {e : Event} (h : (c.step e).1.usable = false) :
    c.newReplies e = [] := by
  cases e with
  | workerWrites | workerClosesReplies | workerClosesRequests | close => simp [newReplies, step]
  | request payload timeout =>
    obtain ⟨c', x, hx, ha⟩ := exists_answered c payload timeout
    simp only [step, hx, newReplies] at h ⊢
    cases ha with
    | replied hc => exact absurd (hc.symm.trans h) (by simp)
    | unusable | refused | expired | notTaken | unanswered => simp [Exchange.payload?]

/-! ## All events -/

theorem after_of_unusable {c : Channel} (h : c.usable = false) (es : List Event) :
    (c.after es).usable = false := by
  induction es generalizing c with
  | nil => exact h
  | cons e es ih => exact ih (step_of_unusable h).1

/-- Once a channel is not usable, every request of a run fails. -/
theorem exchanges_of_unusable {c : Channel} (h : c.usable = false) (es : List Event) :
    ∀ x ∈ c.exchanges es, ∃ b, x.reply = .error (.transport (.down b)) := by
  induction es generalizing c with
  | nil => simp
  | cons e es ih =>
    intro x hx
    rw [exchanges_cons, List.mem_append] at hx
    rcases hx with hx | hx
    · exact (step_of_unusable h).2 x (by simpa using hx)
    · exact ih (step_of_unusable h).1 x hx

theorem replies_of_unusable {c : Channel} (h : c.usable = false) (es : List Event) :
    c.replies es = [] := by
  rw [replies, List.filterMap_eq_nil_iff]
  intro x hx
  obtain ⟨b, hb⟩ := exchanges_of_unusable h es x hx
  simp [Exchange.payload?, hb]

theorem length_le_of_mem_replies {c : Channel} {es : List Event} {p : Bytes}
    (h : p ∈ c.replies es) : p.length ≤ Frame.maxLength := by
  induction es generalizing c with
  | nil => simp at h
  | cons e es ih =>
    rw [replies_cons, List.mem_append] at h
    exact h.elim length_le_of_mem_newReplies ih

/-- **Conservation of bytes.**  What the worker has written is the frames of all replies that have
been returned, and then what has not been read; of a usable channel that is what is pending. -/
theorem pending_append_output (c : Channel) (es : List Event) :
    ∃ unread, c.pending ++ c.output es = (c.replies es).flatMap Frame.frame ++ unread ∧
      ((c.after es).usable = true → unread = (c.after es).pending) := by
  induction es generalizing c with
  | nil => exact ⟨c.pending, by simp, fun _ ↦ rfl⟩
  | cons e es ih =>
    cases hu : (c.step e).1.usable with
    | true =>
      obtain ⟨unread, heq, hpending⟩ := ih (c.step e).1
      refine ⟨unread, ?_, hpending⟩
      rw [output_cons, ← List.append_assoc, pending_append_newBytes hu, List.append_assoc, heq,
        replies_cons, List.flatMap_append, List.append_assoc]
    | false =>
      -- nothing is returned any more: all that there is stays unread
      refine ⟨c.pending ++ c.output (e :: es), ?_, fun h ↦ ?_⟩
      · rw [replies_cons, newReplies_of_unusable hu, replies_of_unusable hu]
        rfl
      · rw [after_cons, after_of_unusable hu] at h
        cases h

end Channel

end Nftables
