import RegistryBindings.Binding.NativeType
import RegistryBindings.Registry.Basic

/-!
# The meaning of type tokens

A fixed table gives the meaning of the tokens that registries use. A token it does not know is an opaque
pointer if it has an asterisk, and is passed on otherwise. References to the enum type never consult the
table: they mean the enum of their group where the version has the group, and an unsigned word elsewhere.
-/

namespace RegistryBindings.Binding

namespace TypeTable

/-- The tokens of the table with their meaning. The tokens of one row mean the same. -/
def rows : List (List String × NativeType) :=
  [(["GLboolean"], .scalar .bool),
    (["GLenum", "GLuint", "GLbitfield", "GLhandleARB"], .scalar .uint32),
    (["GLint", "GLsizei", "GLfixed", "GLclampx"], .scalar .int32),
    (["GLintptr", "GLsizeiptr", "GLintptrARB", "GLsizeiptrARB"], .scalar .intPtr),
    (["GLfloat", "GLclampf"], .scalar .float),
    (["GLdouble", "GLclampd"], .scalar .double),
    (["GLubyte"], .scalar .uint8),
    (["GLbyte"], .scalar .int8),
    (["GLchar", "GLcharARB"], .scalar .char8),
    (["GLushort", "GLhalfNV"], .scalar .uint16),
    (["GLshort"], .scalar .int16),
    (["GLint64", "GLint64EXT"], .scalar .int64),
    (["GLuint64", "GLuint64EXT"], .scalar .uint64),
    (["void", "GLvoid"], .scalar .void),
    (["GLuint *", "GLenum *"], .pointer .uint32 .mutable 1),
    (["const GLuint *", "const GLenum *"], .pointer .uint32 .constant 1),
    (["GLdouble *"], .pointer .double .mutable 1),
    (["const GLdouble *"], .pointer .double .constant 1),
    (["GLfloat *"], .pointer .float .mutable 1),
    (["const GLfloat *"], .pointer .float .constant 1),
    (["GLint *", "GLsizei *"], .pointer .int32 .mutable 1),
    (["const GLint *", "const GLsizei *"], .pointer .int32 .constant 1),
    (["GLsizeiptr *", "GLintptr *"], .pointer .intPtr .mutable 1),
    (["const GLsizeiptr *", "const GLintptr *"], .pointer .intPtr .constant 1),
    (["GLushort *", "GLshort *"], .pointer .int16 .mutable 1),
    (["const GLushort *", "const GLshort *"], .pointer .int16 .constant 1),
    (["GLboolean *"], .pointer .bool .mutable 1),
    (["const GLboolean *"], .pointer .bool .constant 1),
    (["GLchar *", "GLcharARB *"], .pointer .char8 .mutable 1),
    (["const GLchar *", "const GLcharARB *"], .pointer .char8 .constant 1),
    (["GLint64 *", "GLint64EXT *"], .pointer .int64 .mutable 1),
    (["const GLint64 *", "const GLint64EXT *"], .pointer .int64 .constant 1),
    (["GLuint64 *", "GLuint64EXT *"], .pointer .uint64 .mutable 1),
    (["const GLuint64 *", "const GLuint64EXT *"], .pointer .uint64 .constant 1),
    (["GLubyte *", "GLbyte *"], .pointer .uint8 .mutable 1),
    (["const GLubyte *", "const GLbyte *"], .pointer .uint8 .constant 1),
    (["void *"], .pointer .void .mutable 1),
    (["const void *"], .pointer .void .constant 1),
    (["void **"], .pointer .void .mutable 2),
    (["const void **"], .pointer .void .constant 2),
    (["GLsync", "GLDEBUGPROC", "GLDEBUGPROCARB", "GLDEBUGPROCKHR", "GLDEBUGPROCAMD", "GLeglImageOES",
        "GLeglClientBufferEXT", "GLvdpauSurfaceNV", "GLVULKANPROCNV"],
      .opaquePointer)]

def lookup? (token : String) : Option NativeType :=
  (rows.find? fun row => row.1.contains token).map (·.2)

end TypeTable

namespace NativeType

def ofToken (token : String) : NativeType :=
  match TypeTable.lookup? token with
  | some type => type
  | none => if token.toList.contains '*' then opaquePointer else verbatim token

def ofTypeRef (version : Registry.Version) (type : Registry.TypeRef) : NativeType :=
  if type.isEnum then
    match type.group? with
    | some group => if version.hasGroup group then enum group else scalar .uint32
    | none => scalar .uint32
  else ofToken type.spelling

end NativeType

end RegistryBindings.Binding
