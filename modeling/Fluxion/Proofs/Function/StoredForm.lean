import Fluxion.Function.Storage
/- The stored form is read back exactly. Slots, indexes and offsets are stored as numbers of 64
   bits; a function whose numbers have that width comes back as it was, with what its released slots
   hold, its links and the order of its free slots, whether they make up a tree or not
   (`reads_back_iff`). If a number does not fit, it does not come back.

   There is one equivalence for each piece: numbers, spans, kinds, nodes, arenas. A list comes back
   if each of its items does (`list?_map`), and the stack of released slots is turned round twice.

   Reading answers no other functions (`isStorable_of_decode?`), so each function that was read
   once, from whatever form, can be written and read ever after. The text of the data format, below
   values, lists and records, is left out. -/
namespace Fluxion

/-! ## What fits -/

/-- A number of 64 bits. -/
abbrev FitsWord (n : Nat) : Prop := n < UInt64.size

/-- Both offsets fit. -/
structure Span.IsStorable (s : Span) : Prop where
  start : FitsWord s.start
  stop : FitsWord s.stop

/-- The index of a parameter fits; literals always do. -/
def Kind.IsStorable : Kind → Prop
  | .param index => FitsWord index
  | _ => True

structure Arena.Node.IsStorable (node : Arena.Node) : Prop where
  kind : node.kind.IsStorable
  parent : ∀ h ∈ node.parent, FitsWord h
  left : ∀ h ∈ node.left, FitsWord h
  right : ∀ h ∈ node.right, FitsWord h
  span : node.span.IsStorable

/-- All slots count, also those that no node is in any more. -/
structure Arena.IsStorable (a : Arena) : Prop where
  nodes : ∀ node ∈ a.nodes.toList, node.IsStorable
  free : ∀ h ∈ a.free, FitsWord h
  root : FitsWord a.root

/-- The numbers of a function are those of its arena. -/
def Function.IsStorable (f : Function) : Prop := f.body.IsStorable

/-! ## Numbers, choices and lists -/

namespace Data

variable {α : Type} {read : Data → Option α} {write : α → Data}

theorem natural?_integer (n : Nat) : (integer n).natural? = some n ↔ FitsWord n := by
  simp only [natural?, integerIn?, FitsWord, UInt64.size, Option.map_eq_some_iff,
    Option.ite_none_right_eq_some, Option.some.injEq]
  constructor
  · rintro ⟨m, ⟨bounds, rfl⟩, -⟩
    omega
  · intro fits
    exact ⟨n, ⟨by omega, rfl⟩, Int.toNat_natCast n⟩

theorem fitsWord_of_natural? {data : Data} {n : Nat} (found : data.natural? = some n) :
    FitsWord n := by
  obtain ⟨value, inRange, rfl⟩ := Option.map_eq_some_iff.mp found
  cases data with
  | integer m =>
    rw [integerIn?] at inRange
    split at inRange
    · next bounds =>
      cases inRange
      have above := bounds.2
      rw [FitsWord]
      omega
    · cases inRange
  | _ => cases inRange

theorem optional?_ofOptional (n : Option Nat) :
    optional? natural? (some (ofOptional n)) = some n ↔ ∀ m ∈ n, FitsWord m := by
  cases n with
  | none => simp [ofOptional, optional?]
  | some n => simp [ofOptional, optional?, natural?_integer]

theorem fitsWord_of_optional? {data : Option Data} {n : Option Nat}
    (found : optional? natural? data = some n) : ∀ m ∈ n, FitsWord m := by
  intro m mem
  cases mem
  unfold optional? at found
  split at found
  · cases found
  · cases found
  · obtain ⟨k, read, same⟩ := Option.map_eq_some_iff.mp found
    cases same
    exact fitsWord_of_natural? read

/-- A list comes back if each of its items does. -/
theorem list?_map (items : List α) :
    (list (items.map write)).list? read = some items ↔
      ∀ a ∈ items, read (write a) = some a := by
  rw [list?]
  induction items with
  | nil => simp
  | cons a rest ih =>
    rw [List.map_cons, List.mapM_cons, List.forall_mem_cons, ← ih]
    simp [Option.bind_eq_some_iff]

theorem exists_of_mem_list? {data : Data} {items : List α} (found : data.list? read = some items) :
    ∀ a ∈ items, ∃ item, read item = some a := by
  cases data with
  | list stored =>
    rw [list?] at found
    induction stored generalizing items with
    | nil =>
      cases found
      exact nofun
    | cons item rest ih =>
      rw [List.mapM_cons] at found
      simp only [Option.bind_eq_bind, Option.bind_eq_some_iff, Option.pure_def,
        Option.some.injEq] at found
      obtain ⟨a, first, others, behind, rfl⟩ := found
      rw [List.forall_mem_cons]
      exact ⟨⟨item, first⟩, ih behind⟩
  | _ => cases found

end Data

namespace Function

/-! ## Writing, then reading -/

variable {s : Span} {kind : Kind} {node : Arena.Node} {a : Arena} {f : Function}

/- The records whose numbers are read are taken apart for any content: with the number in place, the
   bound of its 64 bits would be computed. -/

theorem decodeSpan?_record (start stop : Data) :
    decodeSpan? (.record [("start", start), ("end", stop)]) =
      start.natural?.bind fun start => stop.natural?.bind fun stop => some ⟨start, stop⟩ := rfl

theorem decodeSpan?_encodeSpan : decodeSpan? (encodeSpan s) = some s ↔ s.IsStorable := by
  rw [encodeSpan, decodeSpan?_record]
  simp only [Option.bind_eq_some_iff, Option.some.injEq]
  constructor
  · rintro ⟨start, starts, stop, stops, rfl⟩
    exact ⟨(Data.natural?_integer start).mp starts, (Data.natural?_integer stop).mp stops⟩
  · rintro ⟨start, stop⟩
    exact ⟨s.start, (Data.natural?_integer _).mpr start, s.stop,
      (Data.natural?_integer _).mpr stop, rfl⟩

theorem decodeKind?_integer (data : Data) :
    decodeKind? (.record [("Integer", data)]) =
      (data.integerIn? Int64.minValue.toInt (Int64.maxValue.toInt + 1)).map
        fun n => .integer (.ofInt n) := rfl

theorem decodeKind?_param (data : Data) :
    decodeKind? (.record [("Parameter", data)]) = data.natural?.map .param := rfl

theorem decodeKind?_operator (op : Operator) :
    decodeKind? (encodeKind (.operator op)) = (Operator.ofKey? op.key).map .operator := rfl

theorem decodeKind?_encodeKind : decodeKind? (encodeKind kind) = some kind ↔ kind.IsStorable := by
  cases kind with
  | integer n =>
    have low := n.minValue_le_toInt
    have high := n.toInt_le
    rw [encodeKind, decodeKind?_integer, Data.integerIn?, if_pos ⟨low, Int.lt_add_one_of_le high⟩]
    simp [Kind.IsStorable]
  | fraction x => exact iff_of_true rfl trivial
  | var => exact iff_of_true rfl trivial
  | param index =>
    rw [encodeKind, decodeKind?_param, Kind.IsStorable, ← Data.natural?_integer]
    simp
  | operator op =>
    rw [decodeKind?_operator, Operator.ofKey?_key]
    exact iff_of_true rfl trivial

theorem decodeNode?_encodeNode : decodeNode? (encodeNode node) = some node ↔ node.IsStorable := by
  have fields : (encodeNode node).fields? ["kind", "parent", "left", "right", "span"] =
      some [some (encodeKind node.kind), some (.ofOptional node.parent),
        some (.ofOptional node.left), some (.ofOptional node.right),
        some (encodeSpan node.span)] := rfl
  rw [decodeNode?, fields]
  simp only [Option.bind_eq_bind, Option.bind_some, Option.bind_eq_some_iff, Option.some.injEq]
  constructor
  · rintro ⟨kind, kinds, span, spans, parent, parents, left, lefts, right, rights, rfl⟩
    exact {
      kind := decodeKind?_encodeKind.mp kinds
      parent := (Data.optional?_ofOptional parent).mp parents
      left := (Data.optional?_ofOptional left).mp lefts
      right := (Data.optional?_ofOptional right).mp rights
      span := decodeSpan?_encodeSpan.mp spans }
  · intro storable
    exact ⟨_, decodeKind?_encodeKind.mpr storable.kind,
      _, decodeSpan?_encodeSpan.mpr storable.span,
      _, (Data.optional?_ofOptional _).mpr storable.parent,
      _, (Data.optional?_ofOptional _).mpr storable.left,
      _, (Data.optional?_ofOptional _).mpr storable.right, rfl⟩

/-- The stack of free slots comes back in its order. -/
theorem decodeArena?_encodeArena : decodeArena? (encodeArena a) = some a ↔ a.IsStorable := by
  have fields : (encodeArena a).fields? ["nodes", "free", "root"] =
      some [some (.list (a.nodes.toList.map encodeNode)),
        some (.list (a.free.reverse.map fun h : Nat => .integer h)), some (.integer a.root)] := rfl
  have nodes_iff := @Data.list?_map _ decodeNode? encodeNode a.nodes.toList
  have free_iff := @Data.list?_map _ Data.natural? (fun h : Nat => .integer h) a.free.reverse
  simp only [decodeNode?_encodeNode, Data.natural?_integer, List.mem_reverse] at nodes_iff free_iff
  rw [decodeArena?, fields]
  simp only [Option.bind_eq_bind, Option.bind_some, Option.bind_eq_some_iff, Option.some.injEq]
  constructor
  · rintro ⟨nodes, stored, free, stack, root, top, rfl⟩
    rw [List.reverse_reverse] at free_iff
    exact ⟨nodes_iff.mp stored, by simpa using free_iff.mp (by simpa using stack),
      (Data.natural?_integer root).mp top⟩
  · rintro ⟨nodes, free, root⟩
    refine ⟨_, nodes_iff.mpr nodes, _, free_iff.mpr free, _, (Data.natural?_integer _).mpr root, ?_⟩
    simp

theorem decodeParams?_record (names : List String) :
    decodeParams? (.record [("names", .list (names.map .text))]) = some ⟨names⟩ := by
  have found : (Data.list (names.map .text)).list? Data.text? = some names :=
    (Data.list?_map names).mpr fun _ _ => rfl
  have fields : (Data.record [("names", .list (names.map .text))]).fields? ["names"] =
      some [some (.list (names.map .text))] := rfl
  rw [decodeParams?, fields]
  simp only [Option.bind_eq_bind, Option.bind_some, found]

/-- What is written is read back as it was, exactly if its numbers fit. -/
theorem reads_back_iff (f : Function) : decode? (encode f) = some f ↔ f.IsStorable := by
  have fields : (encode f).fields? ["name", "variable", "params", "ast"] =
      some [some (.text f.name), some (.text f.variableName),
        some (.record [("names", .list (f.params.names.map .text))]), some (encodeArena f.body)] :=
    rfl
  rw [decode?, fields, IsStorable, ← decodeArena?_encodeArena]
  simp only [Option.bind_eq_bind, Option.bind_some, Option.bind_eq_some_iff, Option.some.injEq,
    Data.text?, decodeParams?_record]
  constructor
  · rintro ⟨body, bodies, same⟩
    rw [bodies, ← same]
  · intro bodies
    exact ⟨f.body, bodies, rfl⟩

/- A released slot with the node that it held, links to slots that are none, and a slot that is
   free twice. -/
example :
    let f : Function := {
      name := "f", variableName := "x"
      body := {
        nodes := #[⟨.param 7, ⟨9, 3⟩, some 5, none, some 0⟩, ⟨.var, ⟨5, 6⟩, none, none, none⟩]
        free := [1, 0, 1]
        root := 2 } }
    decode? (encode f) = some f := by decide +kernel

/-! ## Reading, then writing -/

theorem isStorable_of_decodeSpan? {data : Data} (found : decodeSpan? data = some s) :
    s.IsStorable := by
  unfold decodeSpan? at found
  dsimp only [Option.bind_eq_bind] at found
  split at found
  case' h_1 => obtain ⟨-, -, found⟩ := Option.bind_eq_some_iff.mp found
  all_goals
    obtain ⟨fields, -, found⟩ := Option.bind_eq_some_iff.mp found
    split at found
    · simp only [Option.bind_eq_some_iff, Option.some.injEq] at found
      obtain ⟨start, starts, stop, stops, rfl⟩ := found
      exact ⟨Data.fitsWord_of_natural? starts, Data.fitsWord_of_natural? stops⟩
    · cases found

theorem isStorable_of_decodeKind? {data : Data} (found : decodeKind? data = some kind) :
    kind.IsStorable := by
  rw [decodeKind?] at found
  obtain ⟨choice, -, found⟩ := Option.bind_eq_some_iff.mp found
  split at found
  · split at found
    · cases found
      trivial
    · cases found
  · obtain ⟨n, -, rfl⟩ := Option.map_eq_some_iff.mp found
    trivial
  · obtain ⟨x, -, rfl⟩ := Option.map_eq_some_iff.mp found
    trivial
  · obtain ⟨index, indexes, rfl⟩ := Option.map_eq_some_iff.mp found
    exact Data.fitsWord_of_natural? indexes
  · obtain ⟨op, -, rfl⟩ := Option.map_eq_some_iff.mp found
    trivial
  · cases found

theorem isStorable_of_decodeNode? {data : Data} (found : decodeNode? data = some node) :
    node.IsStorable := by
  rw [decodeNode?] at found
  obtain ⟨fields, -, found⟩ := Option.bind_eq_some_iff.mp found
  split at found
  · simp only [Option.bind_eq_bind, Option.bind_eq_some_iff, Option.some.injEq] at found
    obtain ⟨kind, kinds, span, spans, parent, parents, left, lefts, right, rights, rfl⟩ := found
    exact {
      kind := isStorable_of_decodeKind? kinds
      parent := Data.fitsWord_of_optional? parents
      left := Data.fitsWord_of_optional? lefts
      right := Data.fitsWord_of_optional? rights
      span := isStorable_of_decodeSpan? spans }
  · cases found

theorem isStorable_of_decodeArena? {data : Data} (found : decodeArena? data = some a) :
    a.IsStorable := by
  rw [decodeArena?] at found
  obtain ⟨fields, -, found⟩ := Option.bind_eq_some_iff.mp found
  split at found
  · simp only [Option.bind_eq_bind, Option.bind_eq_some_iff, Option.some.injEq] at found
    obtain ⟨nodes, stored, free, stack, root, top, rfl⟩ := found
    refine ⟨?_, ?_, Data.fitsWord_of_natural? top⟩
    · intro node mem
      obtain ⟨item, read⟩ := Data.exists_of_mem_list? stored node mem
      exact isStorable_of_decodeNode? read
    · intro h mem
      obtain ⟨item, read⟩ := Data.exists_of_mem_list? stack h (List.mem_reverse.mp mem)
      exact Data.fitsWord_of_natural? read
  · cases found

/-- What was read can be written, whatever it was read from. -/
theorem isStorable_of_decode? {data : Data} (found : decode? data = some f) : f.IsStorable := by
  rw [decode?] at found
  obtain ⟨fields, -, found⟩ := Option.bind_eq_some_iff.mp found
  split at found
  · simp only [Option.bind_eq_bind, Option.bind_eq_some_iff, Option.some.injEq] at found
    obtain ⟨name, -, variableName, -, params, -, body, bodies, rfl⟩ := found
    exact isStorable_of_decodeArena? bodies
  · cases found

end Function
end Fluxion
