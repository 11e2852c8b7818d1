import OnePass.Main
import OnePass.Proofs.Ancestry
import OnePass.Proofs.Definedness
import OnePass.Proofs.Delivery
import OnePass.Proofs.Editing
import OnePass.Proofs.Escaping
import OnePass.Proofs.Hexadecimal
import OnePass.Proofs.Initialization
import OnePass.Proofs.Lexeme.Joining
import OnePass.Proofs.Lexeme.LineEnds
import OnePass.Proofs.Parsing.Precedence
import OnePass.Proofs.Pointing
import OnePass.Proofs.Promotion
import OnePass.Proofs.Revision
import OnePass.Proofs.Sequences
import OnePass.Proofs.SortedMap
import OnePass.Proofs.Substring
import OnePass.Proofs.Whereabouts
import OnePass.Shell.Folder
