import SectionedConfig.Journal
import SectionedConfig.Proofs.Assignment.Standing
import SectionedConfig.Proofs.ConfigMap.Integers
import SectionedConfig.Proofs.ConfigMap.Layout
import SectionedConfig.Proofs.ConfigMap.Meaning
import SectionedConfig.Proofs.ConfigMap.OneLine
import SectionedConfig.Proofs.ConfigMap.Refusal
import SectionedConfig.Proofs.ConfigMap.RoundTrip
import SectionedConfig.Proofs.ConfigMap.Sections
import SectionedConfig.Proofs.ConfigMap.Sources
import SectionedConfig.Proofs.Decimal.Layout
import SectionedConfig.Proofs.Document.Appending
import SectionedConfig.Proofs.Document.Composing
import SectionedConfig.Proofs.Document.Decoding
import SectionedConfig.Proofs.Document.Flattening
import SectionedConfig.Proofs.Document.Tidy
import SectionedConfig.Proofs.Json
import SectionedConfig.Proofs.Registry.Atomicity
import SectionedConfig.Proofs.Registry.Declarations
import SectionedConfig.Proofs.Registry.FlatDecoding
import SectionedConfig.Proofs.Registry.FlatEncoding
import SectionedConfig.Proofs.Registry.Meaning
import SectionedConfig.Proofs.Registry.RoundTrip
import SectionedConfig.Proofs.Registry.Unbound
import SectionedConfig.Proofs.TokenStream.Acceptance
import SectionedConfig.Proofs.TokenStream.BreakOff
import SectionedConfig.Proofs.TokenStream.Calls
import SectionedConfig.Proofs.TokenStream.Concatenation
import SectionedConfig.Proofs.TokenStream.Failure
import SectionedConfig.Proofs.TokenStream.Nesting
import SectionedConfig.Proofs.TokenStream.Placement
import SectionedConfig.Proofs.TokenStream.Remarks
import SectionedConfig.Proofs.TokenStream.Renumbering
import SectionedConfig.Proofs.TokenStream.Respacing
import SectionedConfig.Proofs.TokenStream.Safety
