import Desugar.Typing.Library.Package

/-!
# Packages for text

To find the types of conditionals, what a package declares has to be known, but not how.
-/
namespace Desugar.Typing.Library

def stringsPackage : Package where
  path := "strings"
  name := "strings"
  declarations := "import (
\t\"io\"
\t\"iter\"
\t\"sync\"
\t\"unicode\"
)
type Builder struct \x7b addr *Builder; buf []byte \x7d
func (b *Builder) Cap() int
func (b *Builder) Grow(n int)
func (b *Builder) Len() int
func (b *Builder) Reset()
func (b *Builder) String() string
func (b *Builder) Write(p []byte) (int, error)
func (b *Builder) WriteByte(c byte) error
func (b *Builder) WriteRune(r rune) (int, error)
func (b *Builder) WriteString(s string) (int, error)
type Reader struct \x7b s string; i int64; prevRune int \x7d
func (r *Reader) Len() int
func (r *Reader) Read(b []byte) (n int, err error)
func (r *Reader) ReadAt(b []byte, off int64) (n int, err error)
func (r *Reader) ReadByte() (byte, error)
func (r *Reader) ReadRune() (ch rune, size int, err error)
func (r *Reader) Reset(s string)
func (r *Reader) Seek(offset int64, whence int) (int64, error)
func (r *Reader) Size() int64
func (r *Reader) UnreadByte() error
func (r *Reader) UnreadRune() error
func (r *Reader) WriteTo(w io.Writer) (n int64, err error)
type Replacer struct \x7b once sync.Once; r replacer; oldnew []string \x7d
type replacer interface \x7b
\tReplace(s string) string
\tWriteString(w io.Writer, s string) (n int, err error)
\x7d
func (r *Replacer) Replace(s string) string
func (r *Replacer) WriteString(w io.Writer, s string) (n int, err error)
func Clone(s string) string
func Compare(a, b string) int
func Contains(s, substr string) bool
func ContainsAny(s, chars string) bool
func ContainsFunc(s string, f func(rune) bool) bool
func ContainsRune(s string, r rune) bool
func Count(s, substr string) int
func Cut(s, sep string) (before, after string, found bool)
func CutPrefix(s, prefix string) (after string, found bool)
func CutSuffix(s, suffix string) (before string, found bool)
func EqualFold(s, t string) bool
func Fields(s string) []string
func FieldsFunc(s string, f func(rune) bool) []string
func FieldsFuncSeq(s string, f func(rune) bool) iter.Seq[string]
func FieldsSeq(s string) iter.Seq[string]
func HasPrefix(s, prefix string) bool
func HasSuffix(s, suffix string) bool
func Index(s, substr string) int
func IndexAny(s, chars string) int
func IndexByte(s string, c byte) int
func IndexFunc(s string, f func(rune) bool) int
func IndexRune(s string, r rune) int
func Join(elems []string, sep string) string
func LastIndex(s, substr string) int
func LastIndexAny(s, chars string) int
func LastIndexByte(s string, c byte) int
func LastIndexFunc(s string, f func(rune) bool) int
func Lines(s string) iter.Seq[string]
func Map(mapping func(rune) rune, s string) string
func NewReader(s string) *Reader
func NewReplacer(oldnew ...string) *Replacer
func Repeat(s string, count int) string
func Replace(s, old, new string, n int) string
func ReplaceAll(s, old, new string) string
func Split(s, sep string) []string
func SplitAfter(s, sep string) []string
func SplitAfterN(s, sep string, n int) []string
func SplitAfterSeq(s, sep string) iter.Seq[string]
func SplitN(s, sep string, n int) []string
func SplitSeq(s, sep string) iter.Seq[string]
func Title(s string) string
func ToLower(s string) string
func ToLowerSpecial(c unicode.SpecialCase, s string) string
func ToTitle(s string) string
func ToTitleSpecial(c unicode.SpecialCase, s string) string
func ToUpper(s string) string
func ToUpperSpecial(c unicode.SpecialCase, s string) string
func ToValidUTF8(s, replacement string) string
func Trim(s, cutset string) string
func TrimFunc(s string, f func(rune) bool) string
func TrimLeft(s, cutset string) string
func TrimLeftFunc(s string, f func(rune) bool) string
func TrimPrefix(s, prefix string) string
func TrimRight(s, cutset string) string
func TrimRightFunc(s string, f func(rune) bool) string
func TrimSpace(s string) string
func TrimSuffix(s, suffix string) string
func (b *Builder) copyCheck()
func (b *Builder) grow(n int)
func (r *Replacer) build() replacer
func (r *Replacer) buildOnce()
type asciiSet [8]uint32
type stringFinder struct \x7b pattern string; badCharSkip [256]int; goodSuffixSkip []int \x7d
type genericReplacer struct \x7b tableSize int; mapping [256]byte \x7d
type byteReplacer [256]byte
type byteStringReplacer struct \x7b replacements [256][]byte; toReplace []string \x7d
type singleStringReplacer struct \x7b finder *stringFinder; value string \x7d
type stringWriter struct \x7b w io.Writer \x7d
type appendSliceWriter []byte
func explode(s string, n int) []string
func explodeSeq(s string) iter.Seq[string]
func genSplit(s, sep string, sepSave, n int) []string
func getStringWriter(w io.Writer) io.StringWriter
func indexFunc(s string, f func(rune) bool, truth bool) int
func isSeparator(r rune) bool
func lastIndexFunc(s string, f func(rune) bool, truth bool) int
func longestCommonSuffix(a, b string) (i int)
func makeASCIISet(chars string) (as asciiSet, ok bool)
func makeStringFinder(pattern string) *stringFinder
func splitSeq(s, sep string, sepSave int) iter.Seq[string]
func trimLeftASCII(s string, as *asciiSet) string
func trimLeftByte(s string, c byte) string
func trimLeftUnicode(s, cutset string) string
func trimRightASCII(s string, as *asciiSet) string
func trimRightByte(s string, c byte) string
func trimRightUnicode(s, cutset string) string
"

def bytesPackage : Package where
  path := "bytes"
  name := "bytes"
  declarations := "import (
\t\"io\"
\t\"iter\"
\t\"unicode\"
)
const MinRead = 512
var ErrTooLarge error
type Buffer struct \x7b buf []byte; off int; lastRead readOp \x7d
type readOp int8
func NewBuffer(buf []byte) *Buffer
func NewBufferString(s string) *Buffer
func (b *Buffer) Available() int
func (b *Buffer) AvailableBuffer() []byte
func (b *Buffer) Bytes() []byte
func (b *Buffer) Cap() int
func (b *Buffer) Grow(n int)
func (b *Buffer) Len() int
func (b *Buffer) Next(n int) []byte
func (b *Buffer) Peek(n int) ([]byte, error)
func (b *Buffer) Read(p []byte) (n int, err error)
func (b *Buffer) ReadByte() (byte, error)
func (b *Buffer) ReadBytes(delim byte) (line []byte, err error)
func (b *Buffer) ReadFrom(r io.Reader) (n int64, err error)
func (b *Buffer) ReadRune() (r rune, size int, err error)
func (b *Buffer) ReadString(delim byte) (line string, err error)
func (b *Buffer) Reset()
func (b *Buffer) String() string
func (b *Buffer) Truncate(n int)
func (b *Buffer) UnreadByte() error
func (b *Buffer) UnreadRune() error
func (b *Buffer) Write(p []byte) (n int, err error)
func (b *Buffer) WriteByte(c byte) error
func (b *Buffer) WriteRune(r rune) (n int, err error)
func (b *Buffer) WriteString(s string) (n int, err error)
func (b *Buffer) WriteTo(w io.Writer) (n int64, err error)
type Reader struct \x7b s []byte; i int64; prevRune int \x7d
func NewReader(b []byte) *Reader
func (r *Reader) Len() int
func (r *Reader) Read(b []byte) (n int, err error)
func (r *Reader) ReadAt(b []byte, off int64) (n int, err error)
func (r *Reader) ReadByte() (byte, error)
func (r *Reader) ReadRune() (ch rune, size int, err error)
func (r *Reader) Reset(b []byte)
func (r *Reader) Seek(offset int64, whence int) (int64, error)
func (r *Reader) Size() int64
func (r *Reader) UnreadByte() error
func (r *Reader) UnreadRune() error
func (r *Reader) WriteTo(w io.Writer) (n int64, err error)
func Clone(b []byte) []byte
func Compare(a, b []byte) int
func Contains(b, subslice []byte) bool
func ContainsAny(b []byte, chars string) bool
func ContainsFunc(b []byte, f func(rune) bool) bool
func ContainsRune(b []byte, r rune) bool
func Count(s, sep []byte) int
func Cut(s, sep []byte) (before, after []byte, found bool)
func CutPrefix(s, prefix []byte) (after []byte, found bool)
func CutSuffix(s, suffix []byte) (before []byte, found bool)
func Equal(a, b []byte) bool
func EqualFold(s, t []byte) bool
func Fields(s []byte) [][]byte
func FieldsFunc(s []byte, f func(rune) bool) [][]byte
func FieldsFuncSeq(s []byte, f func(rune) bool) iter.Seq[[]byte]
func FieldsSeq(s []byte) iter.Seq[[]byte]
func HasPrefix(s, prefix []byte) bool
func HasSuffix(s, suffix []byte) bool
func Index(s, sep []byte) int
func IndexAny(s []byte, chars string) int
func IndexByte(b []byte, c byte) int
func IndexFunc(s []byte, f func(r rune) bool) int
func IndexRune(s []byte, r rune) int
func Join(s [][]byte, sep []byte) []byte
func LastIndex(s, sep []byte) int
func LastIndexAny(s []byte, chars string) int
func LastIndexByte(s []byte, c byte) int
func LastIndexFunc(s []byte, f func(r rune) bool) int
func Lines(s []byte) iter.Seq[[]byte]
func Map(mapping func(r rune) rune, s []byte) []byte
func Repeat(b []byte, count int) []byte
func Replace(s, old, new []byte, n int) []byte
func ReplaceAll(s, old, new []byte) []byte
func Runes(s []byte) []rune
func Split(s, sep []byte) [][]byte
func SplitAfter(s, sep []byte) [][]byte
func SplitAfterN(s, sep []byte, n int) [][]byte
func SplitAfterSeq(s, sep []byte) iter.Seq[[]byte]
func SplitN(s, sep []byte, n int) [][]byte
func SplitSeq(s, sep []byte) iter.Seq[[]byte]
func Title(s []byte) []byte
func ToLower(s []byte) []byte
func ToLowerSpecial(c unicode.SpecialCase, s []byte) []byte
func ToTitle(s []byte) []byte
func ToTitleSpecial(c unicode.SpecialCase, s []byte) []byte
func ToUpper(s []byte) []byte
func ToUpperSpecial(c unicode.SpecialCase, s []byte) []byte
func ToValidUTF8(s, replacement []byte) []byte
func Trim(s []byte, cutset string) []byte
func TrimFunc(s []byte, f func(r rune) bool) []byte
func TrimLeft(s []byte, cutset string) []byte
func TrimLeftFunc(s []byte, f func(r rune) bool) []byte
func TrimPrefix(s, prefix []byte) []byte
func TrimRight(s []byte, cutset string) []byte
func TrimRightFunc(s []byte, f func(r rune) bool) []byte
func TrimSpace(s []byte) []byte
func TrimSuffix(s, suffix []byte) []byte
func (b *Buffer) empty() bool
func (b *Buffer) grow(n int) int
func (b *Buffer) readSlice(delim byte) (line []byte, err error)
func (b *Buffer) tryGrowByReslice(n int) (int, bool)
type asciiSet [8]uint32
func containsRune(s string, r rune) bool
func explode(s []byte, n int) [][]byte
func genSplit(s, sep []byte, sepSave, n int) [][]byte
func growSlice(b []byte, n int) []byte
func indexFunc(s []byte, f func(r rune) bool, truth bool) int
func isSeparator(r rune) bool
func lastIndexFunc(s []byte, f func(r rune) bool, truth bool) int
func makeASCIISet(chars string) (as asciiSet, ok bool)
func trimLeftByte(s []byte, c byte) []byte
func trimRightByte(s []byte, c byte) []byte
"

def strconvPackage : Package where
  path := "strconv"
  name := "strconv"
  declarations := "const IntSize = 64
var ErrRange error
var ErrSyntax error
type NumError struct \x7b Func string; Num string; Err error \x7d
func (e *NumError) Error() string
func (e *NumError) Unwrap() error
func AppendBool(dst []byte, b bool) []byte
func AppendFloat(dst []byte, f float64, fmt byte, prec, bitSize int) []byte
func AppendInt(dst []byte, i int64, base int) []byte
func AppendQuote(dst []byte, s string) []byte
func AppendQuoteRune(dst []byte, r rune) []byte
func AppendQuoteRuneToASCII(dst []byte, r rune) []byte
func AppendQuoteRuneToGraphic(dst []byte, r rune) []byte
func AppendQuoteToASCII(dst []byte, s string) []byte
func AppendQuoteToGraphic(dst []byte, s string) []byte
func AppendUint(dst []byte, i uint64, base int) []byte
func Atoi(s string) (int, error)
func CanBackquote(s string) bool
func FormatBool(b bool) string
func FormatComplex(c complex128, fmt byte, prec, bitSize int) string
func FormatFloat(f float64, fmt byte, prec, bitSize int) string
func FormatInt(i int64, base int) string
func FormatUint(i uint64, base int) string
func IsGraphic(r rune) bool
func IsPrint(r rune) bool
func Itoa(i int) string
func ParseBool(str string) (bool, error)
func ParseComplex(s string, bitSize int) (complex128, error)
func ParseFloat(s string, bitSize int) (float64, error)
func ParseInt(s string, base int, bitSize int) (i int64, err error)
func ParseUint(s string, base int, bitSize int) (uint64, error)
func Quote(s string) string
func QuoteRune(r rune) string
func QuoteRuneToASCII(r rune) string
func QuoteRuneToGraphic(r rune) string
func QuoteToASCII(s string) string
func QuoteToGraphic(s string) string
func QuotedPrefix(s string) (string, error)
func Unquote(s string) (string, error)
func UnquoteChar(s string, quote byte) (value rune, multibyte bool, tail string, err error)
func appendEscapedRune(buf []byte, r rune, quote byte, ASCIIonly, graphicOnly bool) []byte
func appendQuotedRuneWith(buf []byte, r rune, quote byte, ASCIIonly, graphicOnly bool) []byte
func appendQuotedWith(buf []byte, s string, quote byte, ASCIIonly, graphicOnly bool) []byte
func contains(s string, c byte) bool
func isInGraphicList(r rune) bool
func quoteRuneWith(r rune, quote byte, ASCIIonly, graphicOnly bool) string
func quoteWith(s string, quote byte, ASCIIonly, graphicOnly bool) string
func unhex(b byte) (v rune, ok bool)
func unquote(in string, unescape bool) (out, rem string, err error)
"

def unicodePackage : Package where
  path := "unicode"
  name := "unicode"
  declarations := "const (
\tMaxRune = '\\U0010FFFF'
\tReplacementChar = '\\uFFFD'
\tMaxASCII = '\\u007F'
\tMaxLatin1 = '\\u00FF'
\tUpperCase = iota
\tLowerCase
\tTitleCase
\tMaxCase
)
type Range16 struct \x7b Lo uint16; Hi uint16; Stride uint16 \x7d
type Range32 struct \x7b Lo uint32; Hi uint32; Stride uint32 \x7d
type RangeTable struct \x7b R16 []Range16; R32 []Range32; LatinOffset int \x7d
type CaseRange struct \x7b Lo uint32; Hi uint32; Delta d \x7d
type d [MaxCase]rune
type SpecialCase []CaseRange
func (special SpecialCase) ToLower(r rune) rune
func (special SpecialCase) ToTitle(r rune) rune
func (special SpecialCase) ToUpper(r rune) rune
var Letter, L, Lower, Upper, Digit, Number, Punct, Space, Han, Latin, Greek, Cyrillic *RangeTable
func In(r rune, ranges ...*RangeTable) bool
func Is(rangeTab *RangeTable, r rune) bool
func IsControl(r rune) bool
func IsDigit(r rune) bool
func IsGraphic(r rune) bool
func IsLetter(r rune) bool
func IsLower(r rune) bool
func IsMark(r rune) bool
func IsNumber(r rune) bool
func IsOneOf(ranges []*RangeTable, r rune) bool
func IsPrint(r rune) bool
func IsPunct(r rune) bool
func IsSpace(r rune) bool
func IsSymbol(r rune) bool
func IsTitle(r rune) bool
func IsUpper(r rune) bool
func SimpleFold(r rune) rune
func To(_case int, r rune) rune
func ToLower(r rune) rune
func ToTitle(r rune) rune
func ToUpper(r rune) rune
"

def unicodeUtf8Package : Package where
  path := "unicode/utf8"
  name := "utf8"
  declarations := "const (
\tRuneError = '\\uFFFD'
\tRuneSelf = 0x80
\tMaxRune = '\\U0010FFFF'
\tUTFMax = 4
)
func AppendRune(p []byte, r rune) []byte
func DecodeLastRune(p []byte) (rune, int)
func DecodeLastRuneInString(s string) (rune, int)
func DecodeRune(p []byte) (rune, int)
func DecodeRuneInString(s string) (rune, int)
func EncodeRune(p []byte, r rune) int
func FullRune(p []byte) bool
func FullRuneInString(s string) bool
func RuneCount(p []byte) int
func RuneCountInString(s string) (n int)
func RuneLen(r rune) int
func RuneStart(b byte) bool
func Valid(p []byte) bool
func ValidRune(r rune) bool
func ValidString(s string) bool
"

def regexpPackage : Package where
  path := "regexp"
  name := "regexp"
  declarations := "type Regexp struct \x7b expr string \x7d
func Compile(expr string) (*Regexp, error)
func CompilePOSIX(expr string) (*Regexp, error)
func Match(pattern string, b []byte) (matched bool, err error)
func MatchString(pattern string, s string) (matched bool, err error)
func MustCompile(str string) *Regexp
func MustCompilePOSIX(str string) *Regexp
func QuoteMeta(s string) string
func (re *Regexp) Find(b []byte) []byte
func (re *Regexp) FindAllString(s string, n int) []string
func (re *Regexp) FindAllStringIndex(s string, n int) [][]int
func (re *Regexp) FindAllStringSubmatch(s string, n int) [][]string
func (re *Regexp) FindString(s string) string
func (re *Regexp) FindStringIndex(s string) (loc []int)
func (re *Regexp) FindStringSubmatch(s string) []string
func (re *Regexp) Longest()
func (re *Regexp) Match(b []byte) bool
func (re *Regexp) MatchString(s string) bool
func (re *Regexp) NumSubexp() int
func (re *Regexp) ReplaceAll(src, repl []byte) []byte
func (re *Regexp) ReplaceAllString(src, repl string) string
func (re *Regexp) ReplaceAllStringFunc(src string, repl func(string) string) string
func (re *Regexp) Split(s string, n int) []string
func (re *Regexp) String() string
func (re *Regexp) SubexpNames() []string
"

/-- Declarations of the known packages that work on text. -/
def textPackages : List Package :=
  [stringsPackage, bytesPackage, strconvPackage, unicodePackage, unicodeUtf8Package,
   regexpPackage]

end Desugar.Typing.Library
