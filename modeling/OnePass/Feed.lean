import OnePass.Fault

/-!
# Token feeds

A parser asks a token source for one token after the other. A feed is what a source answers: the results of
its calls in order, each a token or a fault. After the last result it answers with the end of the input, as
often as it is asked.

* `Feed.next` — the answer to one call, and the feed after it;
* `Feed.tokens` — all tokens, or the first fault.
-/

namespace OnePass

/-- The answers of a token source, call by call. -/
structure Feed where
  results : List (Except Diagnostic Token)
  stop : Location

namespace Feed

def next (feed : Feed) : Except Diagnostic Token × Feed :=
  match feed.results with
  | [] => (.ok ⟨.eof, feed.stop, false⟩, feed)
  | result :: results => (result, { feed with results })

def tokens (feed : Feed) : Except Diagnostic (List Token) := feed.results.mapM id

end Feed

end OnePass
