import Lookahead.Token
import Lookahead.Production
import Lookahead.Text.Blank
import Lookahead.Text.Numeral
import Lookahead.Text.Column
import Lookahead.TokenSet.Iter
import Lookahead.TokenSet.Listing
import Lookahead.TokenSet.Literal
import Lookahead.Dialect.Flags
import Lookahead.Grammar.Lookup
import Lookahead.Cursor.Session
import Lookahead.Command.Line
import Lookahead.Main
import Lookahead.Machine.Streams
import Lookahead.Proofs.Bits
import Lookahead.Proofs.Consistent
import Lookahead.Proofs.Words
import Lookahead.Proofs.Iteration
import Lookahead.Proofs.Parsing
import Lookahead.Proofs.Reachable
import Lookahead.Proofs.Layout
import Lookahead.Proofs.Numeral
import Lookahead.Proofs.Spelling
import Lookahead.Proofs.RoundTrip
import Lookahead.Proofs.Members
import Lookahead.Proofs.Walk
import Lookahead.Proofs.Views
import Lookahead.Proofs.Union
import Lookahead.Proofs.Inclusion
import Lookahead.Proofs.Listed
import Lookahead.Proofs.Ahead
import Lookahead.Proofs.Session
import Lookahead.Proofs.Check
import Lookahead.Proofs.Dump
import Lookahead.Proofs.Recovery
import Lookahead.Proofs.Skipping
import Lookahead.Proofs.Agreement
import Lookahead.Proofs.Dialects
import Lookahead.Proofs.Stored
import Lookahead.Proofs.Faultless
import Lookahead.Proofs.CommandLine
import Lookahead.Proofs.Options
import Lookahead.Proofs.Log
import Lookahead.Proofs.Names
