import Mathlib.Control.Monad.Basic
import Nftables.Proofs.Channel.Run

/-!
# Replies belong to their requests

In every run of a channel the messages that requests return are the messages of the worker's stream,
each once and in their order, and after a failure no message is returned any more: a reply that
comes late is never taken for the reply to another request.
-/

namespace Nftables.Channel

open Nftables.Frame (Bytes)

/-- The messages of the worker's stream are the replies that have been returned, and then those that
are still to be read. -/
theorem messages_output (es : List Event) :
    ∃ unread, Frame.messages (output {} es) = replies {} es ++ Frame.messages unread ∧
      output {} es = (replies {} es).flatMap Frame.frame ++ unread ∧
      ((after {} es).usable = true → unread = (after {} es).pending) := by
  obtain ⟨unread, heq, hpending⟩ := pending_append_output {} es
  refine ⟨unread, ?_, heq, hpending⟩
  rw [show output {} es = _ from heq]
  exact Frame.messages_flatMap_frame_append (fun _ ↦ length_le_of_mem_replies) unread

/-- **Correlation.**  In every run, whatever its events and their order:

* the request that is the `k`-th one to return a message returns the `k`-th message of all that the
  worker has written;
* the bytes of the worker are the frames of the messages returned and then unread bytes, so that no
  byte is used twice or left out;
* once a request has failed with an error of the transport or the channel has been closed, it stays
  unusable, and every later request fails because the connection is down;
* if the worker answers with the frames of `ps`, the replies are `ps` in their order, and the next
  request that can be sent does return the next of them. -/
theorem replies_correlate (es : List Event) :
    (∀ (k : Nat) (p : Bytes), (replies {} es)[k]? = some p →
      (Frame.messages (output {} es))[k]? = some p) ∧
    (∃ unread, output {} es = (replies {} es).flatMap Frame.frame ++ unread) ∧
    (∀ (before : List Event) (e : Event) (later : List Event), es = before ++ e :: later →
      (after {} before).Disables e →
        (after {} es).usable = false ∧
        ∀ x ∈ exchanges (after {} (before ++ [e])) later,
          ∃ b, x.reply = .error (.transport (.down b))) ∧
    (∀ (ps : List Bytes) (more : Bytes), (∀ p ∈ ps, p.length ≤ Frame.maxLength) →
      output {} es = ps.flatMap Frame.frame ++ more →
        (∀ (k : Nat) (p q : Bytes), ps[k]? = some p → (replies {} es)[k]? = some q → q = p) ∧
        ∀ (p payload : Bytes) (timeout : Value), ps[(replies {} es).length]? = some p →
          (after {} es).usable = true → (after {} es).requestsClosed = false →
          Sendable payload timeout →
            ((after {} es).request payload timeout).1.usable = true ∧
            ((after {} es).request payload timeout).2.reply = .ok p) := by
  obtain ⟨unread, hmessages, heq, hpending⟩ := messages_output es
  refine ⟨fun k p hk ↦ ?_, ⟨unread, heq⟩, fun before e later hes hd ↦ ?_,
    fun ps more hps hout ↦ ?_⟩
  · rw [hmessages]
    exact List.getElem?_append_left (List.getElem?_eq_some_iff.mp hk).1 ▸ hk
  · have hu : (after {} (before ++ [e])).usable = false := by
      rw [after_append]
      exact usable_step_of_disables hd
    refine ⟨?_, exchanges_of_unusable hu later⟩
    rw [hes, List.append_cons, after_append]
    exact after_of_unusable hu later
  · -- both readings of the stream begin with the same messages
    have hboth : ps ++ Frame.messages more = replies {} es ++ Frame.messages unread := by
      rw [← Frame.messages_flatMap_frame_append hps, ← hout, hmessages]
    have hfirst {k : Nat} {p : Bytes} (hk : ps[k]? = some p) :
        (replies {} es ++ Frame.messages unread)[k]? = some p := by
      rw [← hboth]
      exact List.getElem?_append_left (List.getElem?_eq_some_iff.mp hk).1 ▸ hk
    refine ⟨fun k p q hp hq ↦ ?_, fun p payload timeout hp hu hr hs ↦ ?_⟩
    · have h := hfirst hp
      rw [List.getElem?_append_left (List.getElem?_eq_some_iff.mp hq).1, hq] at h
      exact Option.some.inj h
    · have h := hfirst hp
      rw [List.getElem?_append_right (Nat.le_refl _), Nat.sub_self] at h
      obtain ⟨ps', hps'⟩ : ∃ ps', Frame.messages unread = p :: ps' := by
        cases hm : Frame.messages unread with
        | nil => simp [hm] at h
        | cons q qs => exact ⟨qs, by simpa [hm] using h⟩
      obtain ⟨rest, hd⟩ := Frame.decode?_of_messages hps'
      exact request_of_decode? hu hs hr (hpending hu ▸ hd)

/-- Two replies in three pieces, and a third one that comes after its request has timed out. -/
def lateReply : List Event :=
  let timeout : Value := .float (.finite false 5 0)
  [.workerWrites [0, 0], .workerWrites [0, 1, 7, 0, 0, 0], .request [9] timeout, .workerWrites [0],
    .request [] timeout, .request [] timeout, .workerWrites [0, 0, 0, 1, 3], .request [] timeout]

/-- The two replies are returned in their order, and the late one is not. -/
theorem replies_correlate_lateReply :
    (replies {} lateReply = [[7], []] ∧ (Frame.messages (output {} lateReply))[1]? = some []) ∧
    ((after {} (lateReply.take 5)).Disables lateReply[5] ∧ (after {} lateReply).usable = false) ∧
    ((after {} (lateReply.take 4)).request [] (.float (.finite false 5 0))).2.reply = .ok [] := by
  have hreplies : replies {} lateReply = [[7], []] := by decide +kernel
  have hd : (after {} (lateReply.take 5)).Disables lateReply[5] :=
    .inr ⟨((after {} (lateReply.take 5)).step lateReply[5]).2.get (by decide +kernel), .timedOut,
      by simp, by decide +kernel⟩
  have hnext := (replies_correlate (lateReply.take 4)).2.2.2 [[7], []] [] (by decide)
    (by decide +kernel)
  exact ⟨⟨hreplies, (replies_correlate lateReply).1 1 [] (by rw [hreplies]; rfl)⟩,
    ⟨hd, ((replies_correlate lateReply).2.2.1 _ _ _ (List.take_append_drop 5 lateReply).symm hd).1⟩,
    (hnext.2 [] [] _ (by decide +kernel) (by decide +kernel) (by decide +kernel)
      ⟨by decide, _, rfl, rfl, by decide +kernel⟩).2⟩

end Nftables.Channel
