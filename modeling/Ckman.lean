import Ckman.CtapHidFraming
import Ckman.CtapHidDecoder
import Ckman.CtapHidChannel
import Ckman.CtapHidAllocation
import Ckman.FidoAdapter
import Ckman.Attestation
import Ckman.OathAdd
import Ckman.ManagementKeySync
import Ckman.PinSync
import Ckman.PivRecovery
import Ckman.PivManager
import Ckman.PivGenerationRuns
import Ckman.TrustRoot
import Ckman.PivGenerateBatch
import Ckman.X509Rendering
import Ckman.PrivateKeyFile
import Ckman.Base32
import Ckman.PemBlocks
import Ckman.KeyFormats
import Ckman.PublicKeyFile
import Ckman.KeyExport
import Ckman.SeedFormats
import Ckman.Pkcs12Kdf
import Ckman.Pkcs12Calls
import Ckman.EncryptionSchemes
import Ckman.LeafCertificate
import Ckman.PivmanRecords
import Ckman.AccountCodes
import Ckman.AccountSearch
import Ckman.LegacySm2
import Ckman.FidoPin
import Ckman.FidoCredentials
import Ckman.Hexadecimal
import Ckman.SecretInput
import Ckman.Csv
import Ckman.CredentialsCsv
import Ckman.DeviceSelection
import Ckman.Rfc8017
import Ckman.RsaSignature
import Ckman.OutputFile
import Ckman.OathKeyring
import Ckman.PivCertificateRuns
import Ckman.PivKeyHistories
