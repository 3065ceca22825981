import TypeAtlas.Graph.Report
import TypeAtlas.Text.Json

/-!
Summaries and counts as JSON.
-/

namespace TypeAtlas

def MemberSummary.toJson (m : MemberSummary) : Json :=
  .object [("kind", .text m.kind), ("name", .text m.name), ("signature", .text m.signature),
    ("attributes", .texts m.attributes)]

def Summary.toJson (s : Summary) : Json :=
  .object [("kind", .text s.kind.word), ("full_name", .text s.fullName),
    ("location", .text s.location), ("provenance", .text s.provenance), ("loaded", .flag s.loaded),
    ("generic_parameters", .texts s.generics), ("extends", .texts s.bases),
    ("members", .list (s.members.map MemberSummary.toJson)), ("attributes", .texts s.attributes)]

def Stats.toJson (s : Stats) : Json :=
  .object [("total_declarations", .number s.declarations), ("loaded_declarations", .number s.loaded),
    ("total_edges", .number s.edges), ("classes", .number s.classes),
    ("interfaces", .number s.interfaces), ("structs", .number s.structs), ("enums", .number s.enums),
    ("from_syntax", .number s.fromSource), ("from_metadata", .number s.fromModules),
    ("locations", .number s.locations)]

end TypeAtlas
