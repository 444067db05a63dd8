import QueryShaping.Execution.World
import QueryShaping.Shape.Basic

/-!
# A sample: blogs and their posts
-/

namespace QueryShaping.Sample

inductive Scale where
  | tiny
  | small
  | medium
deriving DecidableEq

namespace Scale

def name : Scale → String
  | .tiny => "Tiny"
  | .small => "Small"
  | .medium => "Medium"

def ofName? (s : String) : Option Scale :=
  [tiny, small, medium].find? (·.name = s)

def blogs : Scale → Nat
  | .tiny => 10
  | .small => 100
  | .medium => 1000

def postsPerBlog : Scale → Nat
  | .tiny => 2
  | .small => 5
  | .medium => 10

end Scale

def int32 (n : Nat) : Value := .int32 (Int32.ofNat n)

/-- Every third blog is not active. -/
def blogRow (blog : Nat) : Row :=
  [int32 blog, .string ("blog-" ++ toString blog), .string (if blog % 3 = 0 then "N" else "Y")]

/-- The title of a post tells its place among those of its blog, in three digits at least. -/
def postTitle (place : Nat) : String :=
  let digits := toString place
  "post-" ++ String.ofList (List.replicate (3 - digits.length) '0') ++ digits

def postRow (scale : Scale) (blog place : Nat) : Row :=
  [int32 (blog * scale.postsPerBlog + place + 1), int32 blog, .string (postTitle place)]

def blogRows (scale : Scale) : List Row :=
  (List.range scale.blogs).map blogRow

def postRows (scale : Scale) : List Row :=
  (List.range scale.blogs).flatMap fun blog => (List.range scale.postsPerBlog).map (postRow scale blog)

/-- A store with the blogs and posts of a scale. -/
def blogStore (scale : Scale) : Store :=
  { Store.empty with tables := [
    ("Blogs", ⟨["Id", "Name", "IsActive"], blogRows scale⟩), ("Posts", ⟨["Id", "BlogId", "Title"], postRows scale⟩)] }

def intMapping : TypeMapping := .plain "int" .int32

def textMapping : TypeMapping := .plain "text" .string

def yesNoMapping : TypeMapping := .converted "char(1)" .yesNo

def blogsTable : Source := .table 1 (some "b") "Blogs" none

def postsTable : Source := .table 2 (some "p") "Posts" none

def blogColumn (name : String) (mapping : TypeMapping) (nullable : Bool) : Expr :=
  blogsTable.column name (some mapping) nullable

def postColumn (name : String) (mapping : TypeMapping) (nullable : Bool) : Expr :=
  postsTable.column name (some mapping) nullable

/-- An entity whose key and first property is `Id`, followed by a text. -/
def entityShape (entityType second : String) (navigations : List Navigation) : EntityShape :=
  ⟨entityType, [0], [⟨"Id", 0, false⟩, ⟨second, 1, true⟩], navigations, false⟩

def posts : ShapedQuery :=
  ⟨(((Select.fromSource postsTable).project "Id" (postColumn "Id" intMapping false)).project "Title"
      (postColumn "Title" textMapping true)).orderBy (postColumn "Title" textMapping true) true,
    .entity (entityShape "Post" "Title" [])⟩

def postsOfBlog : PendingCollection :=
  ⟨some "Posts", "Post", [0], [0], posts, [postColumn "BlogId" intMapping false], [0]⟩

/-- Active blogs with their posts by title. -/
def blogsWithPosts : ShapedQuery :=
  ⟨(((Select.fromSource blogsTable).project "Id" (blogColumn "Id" intMapping false)).project "Name"
      (blogColumn "Name" textMapping true)).filter (blogColumn "IsActive" yesNoMapping false),
    .entity (entityShape "Blog" "Name" [⟨"Posts", .pending postsOfBlog⟩])⟩

/-- A world with these blogs, in which two table sources are there already. -/
def blogWorld (scale : Scale) : World :=
  { World.start (blogStore scale) none with nextTable := 3 }

end QueryShaping.Sample
