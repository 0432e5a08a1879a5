import Chronicle.Sample.Types

/-!
# Sample field types

The field types to which sample values are converted, by their short spelling.
-/

namespace Chronicle

namespace Sample

/-- Field types by their short spelling. -/
def fieldTypes : List (String × FieldType) :=
  [("i8", .signed .w8), ("i16", .signed .w16), ("i32", .signed .w32), ("i64", .signed .w64),
    ("u8", .unsigned .w8), ("u16", .unsigned .w16), ("u32", .unsigned .w32),
    ("u64", .unsigned .w64), ("f32", .single), ("f64", .double), ("bool", .bool),
    ("String", .text), ("Uuid", .uuid), ("DateTime", .instant),
    ("Option<i32>", maybe (.signed .w32)), ("Option<u64>", maybe (.unsigned .w64)),
    ("Option<String>", maybe .text), ("Option<Option<bool>>", maybe (maybe .bool)),
    ("Arc<Pet>", .reference "Pet"), ("Option<Arc<Pet>>", maybe (.reference "Pet")),
    ("Vec<Arc<Pet>>", .list "Pet"), ("EntitySet<Pet>", .set "Pet"),
    ("Address", .embedded "Address"), ("Option<Geo>", maybe (.embedded "Geo"))]

end Sample

end Chronicle
