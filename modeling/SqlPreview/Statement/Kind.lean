import SqlPreview.Text.Blank
import SqlPreview.Text.Mark

namespace SqlPreview.Statement

-- What follows the end of a block comment.
def afterBlockEnd? : Text → Option Text
  | [] => none
  | '*' :: '/' :: t => some t
  | _ :: t => afterBlockEnd? t

-- What follows a comment at the head of a text. A line comment ends before the line end. A block
-- comment that is never closed is none.
def afterComment? : Text → Option Text
  | '-' :: '-' :: t => some (t.dropWhile (· != '\n'))
  | '/' :: '*' :: t => afterBlockEnd? t
  | _ => none

theorem length_lt_of_afterBlockEnd? {t rest : Text} (h : afterBlockEnd? t = some rest) :
    rest.length < t.length := by
  fun_induction afterBlockEnd? t with
  | case1 => cases h
  | case2 t => cases h; simp only [List.length_cons]; omega
  | case3 c t _ ih => have := ih h; simp only [List.length_cons]; omega

theorem length_lt_of_afterComment? {t rest : Text} (h : afterComment? t = some rest) :
    rest.length < t.length := by
  unfold afterComment? at h
  split at h
  · next t =>
    cases h
    have hl := (List.dropWhile_suffix (· != '\n') (l := t)).length_le
    simp only [List.length_cons]
    omega
  · have := length_lt_of_afterBlockEnd? h
    simp only [List.length_cons]
    omega
  · cases h

def comment : Mark Unit :=
  Mark.ofRest afterComment? length_lt_of_afterComment?

inductive Kind where
  | select
  | insert
  | update
  | delete
  | createTable
  | alterTable
  | dropTable
  | createIndex
  | dropIndex
  | truncate
  | begin
  | commit
  | rollback
  | withQuery
  | other
deriving DecidableEq, Repr

namespace Kind

def name : Kind → Text
  | select => "select".toList
  | insert => "insert".toList
  | update => "update".toList
  | delete => "delete".toList
  | createTable => "create_table".toList
  | alterTable => "alter_table".toList
  | dropTable => "drop_table".toList
  | createIndex => "create_index".toList
  | dropIndex => "drop_index".toList
  | truncate => "truncate".toList
  | begin => "begin".toList
  | commit => "commit".toList
  | rollback => "rollback".toList
  | withQuery => "with".toList
  | other => "other".toList

def isBreak (c : Char) : Bool :=
  Text.isBlank c || c == '(' || c == ';'

-- The words of a statement in capitals. Only ASCII letters change.
def words (sql : Text) : List Text :=
  (((comment.replace (fun _ => [' ']) sql).splitOnP isBreak).filter (· != [])).map
    (·.map Char.toUpper)

-- Words that may stand between the verb of a definition and what it is about.
def modifiers : List Text :=
  ["UNIQUE".toList, "TEMP".toList, "TEMPORARY".toList, "OR".toList, "REPLACE".toList]

-- The statements that one word tells.
def ofVerb : List (Text × Kind) :=
  [("SELECT".toList, select), ("VALUES".toList, select), ("TABLE".toList, select),
    ("INSERT".toList, insert), ("UPDATE".toList, update), ("DELETE".toList, delete),
    ("TRUNCATE".toList, truncate), ("BEGIN".toList, begin), ("START".toList, begin),
    ("COMMIT".toList, commit), ("END".toList, commit), ("ROLLBACK".toList, rollback),
    ("WITH".toList, withQuery)]

-- The definitions that are told by a verb and the first word after it that is no modifier.
def ofDefinition : List ((Text × Text) × Kind) :=
  [(("CREATE".toList, "TABLE".toList), createTable),
    (("CREATE".toList, "INDEX".toList), createIndex),
    (("ALTER".toList, "TABLE".toList), alterTable),
    (("DROP".toList, "TABLE".toList), dropTable),
    (("DROP".toList, "INDEX".toList), dropIndex)]

def ofWords : List Text → Option Kind
  | [] => none
  | verb :: rest =>
    match ofVerb.lookup verb with
    | some kind => some kind
    | none =>
      match rest.find? (fun word => !modifiers.contains word) with
      | some target => some ((ofDefinition.lookup (verb, target)).getD other)
      | none => some other

end Kind

-- The kind of a statement. A text without words has none.
def kind? (sql : Text) : Option Kind :=
  Kind.ofWords (Kind.words sql)

end SqlPreview.Statement
