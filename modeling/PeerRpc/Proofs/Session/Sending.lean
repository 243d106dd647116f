import PeerRpc.Proofs.Session.Desk

/-!
# What a session sends

All envelopes that a session puts into its outbox come out of the sink in the same order, as a
stream of frames (`bytes_isPrefix_sent`); `origin_of_mem_sent` tells where each of them comes from.
-/

namespace PeerRpc.Session

open Rpc (Envelope)
open PeerRpc.Frame (stream)

namespace State

variable {R N : Type}

/-- The envelopes that an action puts into the outbox: those behind the ones that were there. -/
def sentBy (s : State R N) (a : Action) : List Envelope :=
  (s.act a).outbox.queue.toList.drop s.outbox.queue.size

/-- The envelopes that are put into the outbox in a run. -/
def sent (s : State R N) (actions : List Action) : List Envelope :=
  s.along sentBy actions

theorem drop_push {α : Type} (xs : Array α) (x : α) : (xs.push x).toList.drop xs.size = [x] := by
  rw [Array.toList_push, ← Array.length_toList, List.drop_left]

theorem drop_size {α : Type} (xs : Array α) : xs.toList.drop xs.size = [] :=
  List.drop_eq_nil_of_le (Array.length_toList ▸ le_rfl)

theorem sent_concat (s : State R N) (actions : List Action) (a : Action) :
    s.sent (actions ++ [a]) = s.sent actions ++ (s.run actions).sentBy a :=
  along_concat _ s actions a

variable {s : State R N}

theorem puts_act (s : State R N) (a : Action) : Puts s a (s.act a).outbox :=
  (desk_act s a).outbox

/-- An action puts no envelope into the outbox, or one whose origin is known. -/
theorem sentBy_cases (s : State R N) (a : Action) :
    s.sentBy a = [] ∧ Outbox.Quiet s.outbox (s.act a).outbox ∨
      ∃ e, s.sentBy a = [e] ∧ Origin s a e ∧ s.outbox.isActive = true ∧
        (s.act a).outbox = s.outbox.put e := by
  rcases puts_act s a with hq | ⟨e, he, ha, ho⟩
  · exact .inl ⟨List.drop_eq_nil_of_le hq.size_le, hq⟩
  · refine .inr ⟨e, ?_, he, ha, ho⟩
    rw [sentBy, ho, Outbox.put, if_pos ha, drop_push]

theorem origin_of_mem_sentBy {a : Action} {e : Envelope} (h : e ∈ s.sentBy a) : Origin s a e := by
  rcases sentBy_cases s a with ⟨hnil, -⟩ | ⟨e', he', ho, -⟩
  · rw [hnil] at h
    cases h
  · rw [he'] at h
    exact List.mem_singleton.1 h ▸ ho

theorem sentBy_of_outbox {a : Action} (h : (s.act a).outbox = s.outbox) : s.sentBy a = [] := by
  rw [sentBy, h, drop_size]

theorem sentBy_of_put {a : Action} {e : Envelope} (ha : s.outbox.isActive = true)
    (hput : (s.act a).outbox = s.outbox.put e) : s.sentBy a = [e] := by
  rw [sentBy, hput, Outbox.put, if_pos ha, drop_push]

theorem eq_of_mem_sentBy_of_put {a : Action} {e e' : Envelope} (h : e ∈ s.sentBy a)
    (hput : (s.act a).outbox = s.outbox.put e') : e = e' := by
  by_cases ha : s.outbox.isActive = true
  · rw [sentBy_of_put ha hput] at h
    exact List.mem_singleton.1 h
  · rw [sentBy_of_outbox (hput.trans (by rw [Outbox.put, if_neg ha]))] at h
    cases h

/-- Every envelope that is sent in a run comes from one of the actions. -/
theorem origin_of_mem_sent {actions : List Action} {e : Envelope} (h : e ∈ s.sent actions) :
    ∃ i a, actions[i]? = some a ∧ Origin (s.run (actions.take i)) a e := by
  obtain ⟨i, a, ha, he⟩ := (mem_along _).1 h
  exact ⟨i, a, ha, origin_of_mem_sentBy he⟩

/-- What has been written is never taken back. -/
theorem bytes_isPrefix_act (s : State R N) (a : Action) :
    s.outbox.sink.bytes <+: (s.act a).outbox.sink.bytes := by
  rcases puts_act s a with hq | ⟨e, -, ha, ho⟩
  · exact hq.bytes_isPrefix
  · rw [ho, Outbox.put, if_pos ha]

theorem carries_run (registry : Rpc.Registry R N) (config : Config) (actions : List Action) :
    ((start registry config).run actions).outbox.Carries
      (stream (((start registry config).sent actions).map Envelope.bytes)) := by
  induction actions using List.reverseRecOn with
  | nil => exact ⟨List.prefix_rfl, fun _ => rfl⟩
  | append_singleton actions a ih =>
    rw [run_concat, sent_concat, List.map_append, Frame.stream_append]
    rcases sentBy_cases ((start registry config).run actions) a with ⟨hnil, hq⟩ | ⟨e, he, -, ha, ho⟩
    · rw [hnil, List.map_nil, Frame.stream_nil, List.append_nil]
      exact ih.quiet hq
    · rw [he, ho, List.map_singleton, Frame.stream_cons, Frame.stream_nil, List.append_nil]
      exact ih.put ha e

/-- What a session has written is the beginning of the stream of the envelopes it has sent. -/
theorem bytes_isPrefix_sent (registry : Rpc.Registry R N) (config : Config)
    (actions : List Action) :
    ((start registry config).run actions).outbox.sink.bytes <+:
      stream (((start registry config).sent actions).map Envelope.bytes) :=
  (carries_run registry config actions).written

end State

end PeerRpc.Session
