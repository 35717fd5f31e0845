import WalletAuth.Json.Records
import WalletAuth.Proofs.Auth.Borders
import WalletAuth.Proofs.Auth.Run
import WalletAuth.Proofs.Auth.SharedNames
import WalletAuth.Proofs.Auth.Wire
import WalletAuth.Proofs.Contact.Refusal
import WalletAuth.Proofs.Contact.Truncation
import WalletAuth.Proofs.Encoding.Base58.Checksum
import WalletAuth.Proofs.HdKey.Compose
import WalletAuth.Proofs.HdKey.Walk
import WalletAuth.Proofs.Key.Encodings
import WalletAuth.Proofs.Key.Moved
import WalletAuth.Proofs.SignedMessage.Binding
