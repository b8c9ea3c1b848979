import LogoSyntax.CommandLine.Host
import LogoSyntax.Main
import LogoSyntax.Regex
import LogoSyntax.Session
import LogoSyntax.Proofs.Grammar.Display
import LogoSyntax.Proofs.Token.Rejoin
import LogoSyntax.Proofs.Grammar.Independence
import LogoSyntax.Proofs.Token.Reading
import LogoSyntax.Proofs.Cursor.Indexed
import LogoSyntax.Proofs.Cursor.Requests
import LogoSyntax.Proofs.Grammar.WellFormed
import LogoSyntax.Proofs.Grammar.Writing
import LogoSyntax.Proofs.Reader.Successive
import LogoSyntax.Proofs.Text.Place
import LogoSyntax.Proofs.Token.Place
import LogoSyntax.Proofs.Grammar.Finality
import LogoSyntax.Proofs.Grammar.Concatenation
import LogoSyntax.Proofs.Token.Location
import LogoSyntax.Proofs.Grammar.Readability
import LogoSyntax.Proofs.CommandLine.Agreement
import LogoSyntax.Proofs.CommandLine.Logging
import LogoSyntax.Proofs.Grammar.Expectation
import LogoSyntax.Proofs.Token.Alone
import LogoSyntax.Proofs.Token.Table
import LogoSyntax.Proofs.Token.CarriageReturn
import LogoSyntax.Proofs.Token.Marker
import LogoSyntax.Proofs.Token.Continuation
import LogoSyntax.Proofs.Encoding.Compact
import LogoSyntax.Proofs.Encoding.Tree
import LogoSyntax.Proofs.Grammar.Progress
import LogoSyntax.Proofs.Reader.History
import LogoSyntax.Proofs.Config.Unset
