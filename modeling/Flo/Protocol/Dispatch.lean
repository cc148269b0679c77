import Flo.Protocol.Parse

/-!
# `parse_any` dispatches on the tag

`parse_any` is an `alt!` of fifteen message parsers, tried in turn until one does not fail. Each
of them starts with `tag!` of its own header, and no two share one, so the first byte alone makes
the choice: on a buffer that starts with `c`, `parse_any` gives the verdict of the one parser
whose tag is `c`, be it `Done`, `Incomplete` or an error, which `alt!` reports as `Alt`
(`parseAny_dispatch`). A byte that is no tag (`0`, the reserved `CLUSTER_STATE` tag `11`, and
every byte above `16`) is an error at once, whatever follows; an empty buffer asks for one byte.
-/

namespace Flo.Protocol

open Flo.Nom

variable {T A : Type} [EventTime T] [SocketAddrText A]

/-- The alternatives of `parse_any` in `alt!`'s order, each with the header its `tag!` reads:
`messageParsers` is its second column. -/
def messageTable : List (UInt8 × Parser (ProtocolMessage T A)) :=
  [(Headers.ackHeader, parseEventAck), (Headers.receiveEvent, parseReceiveEventHeader),
    (Headers.peerUpdate, parsePeerUpdate), (Headers.peerAnnounce, parsePeerAnnounce),
    (Headers.updateMarker, parseUpdateMarker), (Headers.startConsuming, parseStartConsuming),
    (Headers.clientAuth, parseAuth), (Headers.errorHeader, parseErrorMessage),
    (Headers.awaitingEvents, parseAwaitingEvents), (Headers.produceEvent, parseNewProducerEvent),
    (Headers.setBatchSize, parseSetBatchSize), (Headers.nextBatch, parseNextBatch),
    (Headers.endOfBatch, parseEndOfBatch), (Headers.stopConsuming, parseStopConsuming),
    (Headers.cursorCreated, parseCursorCreated)]

/-- Each alternative fails on a first byte other than its tag. -/
theorem messageTable_led :
    ∀ e ∈ (messageTable : List (UInt8 × Parser (ProtocolMessage T A))), ∀ c rest, c ≠ e.1 →
      e.2 (c :: rest) = .error .tag := by
  intro e he
  simp only [messageTable, List.mem_cons, List.mem_singleton, List.not_mem_nil, or_false] at he
  rcases he with rfl | rfl | rfl | rfl | rfl | rfl | rfl | rfl | rfl | rfl | rfl | rfl | rfl |
    rfl | rfl
  all_goals first
    | exact fun _ rest h => tag_bind_of_ne h rest
    | exact fun _ rest h => map_tag_of_ne h rest

/-- The tags of the alternatives, in `alt!`'s order. -/
theorem messageTable_tags :
    (messageTable : List (UInt8 × Parser (ProtocolMessage T A))).map Prod.fst =
      [9, 3, 8, 7, 4, 5, 1, 10, 6, 2, 12, 13, 14, 15, 16] := rfl

theorem messageTable_nodup :
    ((messageTable : List (UInt8 × Parser (ProtocolMessage T A))).map Prod.fst).Nodup := by
  rw [messageTable_tags]
  decide

/-- A byte that is `0`, `11` or above `16` selects no alternative. -/
theorem messageTable_lookup_eq_none_of {c : UInt8}
    (hc : c.toNat = 0 ∨ c.toNat = 11 ∨ 16 < c.toNat) :
    (messageTable : List (UInt8 × Parser (ProtocolMessage T A))).lookup c = none := by
  refine List.lookup_eq_none_iff.mpr fun e he => bne_iff_ne.mpr fun h => ?_
  have htag : c ∈ [(9 : UInt8), 3, 8, 7, 4, 5, 1, 10, 6, 2, 12, 13, 14, 15, 16] := by
    rw [← messageTable_tags (T := T) (A := A), h]
    exact List.mem_map.mpr ⟨e, he, rfl⟩
  simp only [List.mem_cons, List.mem_singleton, List.not_mem_nil, or_false] at htag
  rcases htag with rfl | rfl | rfl | rfl | rfl | rfl | rfl | rfl | rfl | rfl | rfl | rfl | rfl |
    rfl | rfl
  all_goals revert hc; decide

/-- On a buffer that starts with `c`, `parse_any` gives the verdict of the alternative whose tag is
`c`, its errors as `Alt`, and `Error(Alt)` when `c` is no tag. -/
theorem parseAny_cons (c : UInt8) (rest : List UInt8) :
    parseAny (T := T) (A := A) (c :: rest) =
      ((messageTable : List (UInt8 × Parser (ProtocolMessage T A))).lookup c).elim (.error .alt)
        (fun P => (P (c :: rest)).orAlt) :=
  alt_table messageTable_led messageTable_nodup c rest

/-- `parse_any` is a dispatch on the first byte. An empty buffer asks for one byte. A buffer that
starts with `c` gets the verdict of the one alternative whose tag is `c`, `Done` and `Incomplete`
as that parser gives them and its errors as `Alt`, or `Error(Alt)` when `c` is no tag: `0`, the
reserved `11`, or a byte above `16`, whatever follows. -/
theorem parseAny_dispatch (c : UInt8) (rest : List UInt8) :
    parseAny (T := T) (A := A) [] = .incomplete (.size 1) ∧
      parseAny (T := T) (A := A) (c :: rest) =
        ((messageTable : List (UInt8 × Parser (ProtocolMessage T A))).lookup c).elim (.error .alt)
          (fun P => (P (c :: rest)).orAlt) ∧
      (c.toNat = 0 ∨ c.toNat = 11 ∨ 16 < c.toNat →
        parseAny (T := T) (A := A) (c :: rest) = .error .alt) := by
  refine ⟨rfl, parseAny_cons c rest, fun hc => ?_⟩
  rw [parseAny_cons, messageTable_lookup_eq_none_of hc]
  rfl

end Flo.Protocol
