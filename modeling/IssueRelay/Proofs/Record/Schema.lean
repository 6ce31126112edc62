import IssueRelay.Proofs.Wire.Tree
import IssueRelay.Record.Writing

set_option autoImplicit false

namespace IssueRelay

mutual

def Kind.hasSurrogate : (kind : Kind) → kind.Value → Bool
  | .uint64, _ => false
  | .text, s => s.hasSurrogate
  | .optionalText, s => s.any Text.hasSurrogate
  | .record _ fields, r => Row.hasSurrogate fields r

def Row.hasSurrogate : (fields : List (FieldName × Kind)) → Row fields → Bool
  | [], _ => false
  | (_, kind) :: rest, (v, r) => kind.hasSurrogate v || Row.hasSurrogate rest r

end

def Record.hasSurrogate (r : Record) : Bool := Row.hasSurrogate r.type.fields r.row

mutual

/-- Whether the objects of a kind go at most `depth` deep, with a key of its own for every field. -/
def Kind.wellKeyed (depth : Nat) : Kind → Bool
  | .uint64 | .text | .optionalText => true
  | .record _ fields =>
    0 < depth && (fields.map (·.1.wire)).Nodup && Row.wellKeyed (depth - 1) fields

def Row.wellKeyed (depth : Nat) : List (FieldName × Kind) → Bool
  | [] => true
  | (_, kind) :: rest => kind.wellKeyed depth && Row.wellKeyed depth rest

end

theorem Kind.wellKeyed_record {depth : Nat} {type : String} {fields : List (FieldName × Kind)} :
    (Kind.record type fields).wellKeyed depth = true ↔
      0 < depth ∧ (fields.map (·.1.wire)).Nodup ∧ Row.wellKeyed (depth - 1) fields = true := by
  simp only [wellKeyed, Bool.and_eq_true, decide_eq_true_eq, and_assoc]

theorem keys_entries (excluded : List String) : (fields : List (FieldName × Kind)) →
    (r : Row fields) →
    ((Row.entries excluded fields r).map (·.1)).Sublist (fields.map (·.1.wire))
  | [], _ => .slnil
  | (name, kind) :: rest, (v, r) => by
    have hrest := keys_entries excluded rest r
    rw [Row.entries]
    split
    · exact hrest.cons name.wire
    · split
      · exact hrest.cons name.wire
      · exact hrest.cons_cons name.wire

mutual

theorem Kind.wellFormed_toWire? (excluded : List String) : (kind : Kind) → (v : kind.Value) →
    (depth : Nat) → kind.wellKeyed depth = true → kind.hasSurrogate v = false →
    ∀ w, kind.toWire? excluded v = some w → w.WellFormed depth
  | .uint64, n, depth, _, _, w, hw => by
    cases hw
    exact .number n
  | .text, s, depth, _, hv, w, hw => by
    cases hw
    exact .text hv
  | .optionalText, none, depth, _, _, w, hw => by cases hw
  | .optionalText, some s, depth, _, hv, w, hw => by
    cases hw
    exact .text hv
  | .record _ fields, r, depth, hk, hv, w, hw => by
    obtain ⟨hdepth, hkeys, heach⟩ := Kind.wellKeyed_record.mp hk
    obtain ⟨depth, rfl⟩ : ∃ d, depth = d + 1 := ⟨depth - 1, by omega⟩
    cases hw
    have hsub := keys_entries excluded fields r
    exact .object (hkeys.sublist hsub) (Row.wellFormed_entries excluded fields r depth heach hv)

theorem Row.wellFormed_entries (excluded : List String) : (fields : List (FieldName × Kind)) →
    (r : Row fields) → (depth : Nat) → Row.wellKeyed depth fields = true →
    Row.hasSurrogate fields r = false →
    ∀ e ∈ Row.entries excluded fields r, e.2.WellFormed depth
  | [], _, _, _, _, e, he => by cases he
  | (name, kind) :: rest, (v, r), depth, hk, hr, e, he => by
    obtain ⟨hkind, hk⟩ := Bool.and_eq_true_iff.mp hk
    obtain ⟨hv, hr⟩ := Bool.or_eq_false_iff.mp hr
    have hrest := Row.wellFormed_entries excluded rest r depth hk hr
    rw [Row.entries] at he
    split at he
    · exact hrest e he
    · split at he
      · exact hrest e he
      · rename_i w hw
        obtain rfl | he := List.mem_cons.mp he
        · exact Kind.wellFormed_toWire? excluded kind v depth hkind hv w hw
        · exact hrest e he

end

def RecordType.kind (type : RecordType) : Kind := .record type.name type.fields

def Record.maxDepth : Nat := 3

theorem RecordType.wellKeyed_kind (type : RecordType) :
    type.kind.wellKeyed Record.maxDepth = true := by
  cases type <;> decide

theorem Record.wellFormed_toWire {r : Record} (h : r.hasSurrogate = false)
    (excluded : List String) : (r.toWire excluded).WellFormed maxDepth :=
  Kind.wellFormed_toWire? excluded r.type.kind r.row maxDepth r.type.wellKeyed_kind h _ rfl

end IssueRelay
