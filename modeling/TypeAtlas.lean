import TypeAtlas.Main
import TypeAtlas.Proofs.OnDemand
import TypeAtlas.Proofs.Boxing
import TypeAtlas.Proofs.ReferenceRows
import TypeAtlas.Proofs.Lookup
import TypeAtlas.Proofs.DeepLoading
import TypeAtlas.Proofs.ScopeWalk
import TypeAtlas.Proofs.SpecChains
import TypeAtlas.Proofs.TypeAgreement
import TypeAtlas.Proofs.LiteralMeaning
import TypeAtlas.Proofs.Snippets
import TypeAtlas.Proofs.GenericArguments
import TypeAtlas.Proofs.SerializedNames
import TypeAtlas.Proofs.ReferenceRoundTrip
import TypeAtlas.Proofs.AcceptedTexts
import TypeAtlas.Proofs.Truncation
import TypeAtlas.Proofs.Enclosure
import TypeAtlas.Proofs.ShortestForms
