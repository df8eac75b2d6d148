import TickToTrade.Pipeline.Dispatch
import TickToTrade.OrderBook.Priority

/-! The pipeline's loop over whole streams: what a live order owes to the messages for its id,
when it leaves, and that nothing overtakes it while it stays. The facts are proved on the
reference book, one message at a time, and carried over to the book by refinement. -/
namespace TickToTrade
open LimitOrderBook Linked

namespace ReferenceBook
variable {r : ReferenceBook} {msg : InternalMessage} {id : UInt64} {t t' : Terms}

/-- The reference book after a stream. -/
def after (maxOrders maxPrice : ℕ) (msgs : List InternalMessage) : ReferenceBook :=
  msgs.foldl apply (init maxOrders maxPrice)

section Order
variable {ids : List UInt64} {side side' : Side} {price price' quantity : UInt64}

end Order

end ReferenceBook

section Transfer
variable {maxOrders maxPrice : ℕ} {msgs : List InternalMessage} {lob lob' : LimitOrderBook}
  {r : ReferenceBook} {msg : InternalMessage} {id : UInt64}

lemma LimitOrderBook.Refines.precedes_iff (h : Refines lob r) {side : Side} {price i j : UInt64} :
    Precedes lob side price i j ↔ [i,j].Sublist (r.queue side price) := by
  obtain ⟨free,queue,hinv,ha⟩ := h
  rw [ha.queue]
  exact hinv.precedes_iff

end Transfer

end TickToTrade
