import Desugar.Typing.Library.Package

/-!
# Packages for input and output

To find the types of conditionals, what a package declares has to be known, but not how.
-/
namespace Desugar.Typing.Library

def fmtPackage : Package where
  path := "fmt"
  name := "fmt"
  declarations := "import \"io\"
type State interface \x7b
\tWrite(b []byte) (n int, err error)
\tWidth() (wid int, ok bool)
\tPrecision() (prec int, ok bool)
\tFlag(c int) bool
\x7d
type Formatter interface \x7b Format(f State, verb rune) \x7d
type Stringer interface \x7b String() string \x7d
type GoStringer interface \x7b GoString() string \x7d
type ScanState interface \x7b
\tReadRune() (r rune, size int, err error)
\tUnreadRune() error
\tSkipSpace()
\tToken(skipSpace bool, f func(rune) bool) (token []byte, err error)
\tWidth() (wid int, ok bool)
\tRead(buf []byte) (n int, err error)
\x7d
type Scanner interface \x7b Scan(state ScanState, verb rune) error \x7d
func Append(b []byte, a ...any) []byte
func Appendf(b []byte, format string, a ...any) []byte
func Appendln(b []byte, a ...any) []byte
func Errorf(format string, a ...any) (err error)
func FormatString(state State, verb rune) string
func Fprint(w io.Writer, a ...any) (n int, err error)
func Fprintf(w io.Writer, format string, a ...any) (n int, err error)
func Fprintln(w io.Writer, a ...any) (n int, err error)
func Fscan(r io.Reader, a ...any) (n int, err error)
func Fscanf(r io.Reader, format string, a ...any) (n int, err error)
func Fscanln(r io.Reader, a ...any) (n int, err error)
func Print(a ...any) (n int, err error)
func Printf(format string, a ...any) (n int, err error)
func Println(a ...any) (n int, err error)
func Scan(a ...any) (n int, err error)
func Scanf(format string, a ...any) (n int, err error)
func Scanln(a ...any) (n int, err error)
func Sprint(a ...any) string
func Sprintf(format string, a ...any) string
func Sprintln(a ...any) string
func Sscan(str string, a ...any) (n int, err error)
func Sscanf(str string, format string, a ...any) (n int, err error)
func Sscanln(str string, a ...any) (n int, err error)
type buffer []byte
type fmtFlags struct \x7b widPresent, precPresent, minus, plus, sharp, space, zero, plusV, sharpV bool \x7d
type fmt struct \x7b buf *buffer; fmtFlags; wid, prec int; intbuf [68]byte \x7d
type pp struct \x7b buf buffer; arg any; fmt fmt; reordered, goodArgNum, panicking, erroring, wrapErrs bool; wrappedErrs []int \x7d
type readRune struct \x7b reader io.Reader; peekRune rune \x7d
type scanError struct \x7b err error \x7d
type ss struct \x7b rs io.RuneScanner; buf buffer; count int; atEOF bool \x7d
type stringReader string
type wrapError struct \x7b msg string; err error \x7d
type wrapErrors struct \x7b msg string; errs []error \x7d
func errorHandler(errp *error)
func errorf(format string, a ...any) error
func hexDigit(d rune) (digit int, ok bool)
func indexRune(s string, r rune) int
func intFromArg(a []any, argNum int) (num int, isInt bool, newArgNum int)
func isSpace(r rune) bool
func newPrinter() *pp
func notSpace(r rune) bool
func parseArgNumber(format string) (index int, wid int, ok bool)
func parsenum(s string, start, end int) (num int, isnum bool, newi int)
func tooLarge(x int) bool
"

def ioPackage : Package where
  path := "io"
  name := "io"
  declarations := "const (
\tSeekStart = 0
\tSeekCurrent = 1
\tSeekEnd = 2
)
var EOF error
var ErrClosedPipe error
var ErrNoProgress error
var ErrShortBuffer error
var ErrShortWrite error
var ErrUnexpectedEOF error
var Discard Writer = nil
type Reader interface \x7b Read(p []byte) (n int, err error) \x7d
type Writer interface \x7b Write(p []byte) (n int, err error) \x7d
type Closer interface \x7b Close() error \x7d
type Seeker interface \x7b Seek(offset int64, whence int) (int64, error) \x7d
type ReadWriter interface \x7b Reader; Writer \x7d
type ReadCloser interface \x7b Reader; Closer \x7d
type WriteCloser interface \x7b Writer; Closer \x7d
type ReadWriteCloser interface \x7b Reader; Writer; Closer \x7d
type ReadSeeker interface \x7b Reader; Seeker \x7d
type ReadSeekCloser interface \x7b Reader; Seeker; Closer \x7d
type WriteSeeker interface \x7b Writer; Seeker \x7d
type ReadWriteSeeker interface \x7b Reader; Writer; Seeker \x7d
type ReaderFrom interface \x7b ReadFrom(r Reader) (n int64, err error) \x7d
type WriterTo interface \x7b WriteTo(w Writer) (n int64, err error) \x7d
type ReaderAt interface \x7b ReadAt(p []byte, off int64) (n int, err error) \x7d
type WriterAt interface \x7b WriteAt(p []byte, off int64) (n int, err error) \x7d
type ByteReader interface \x7b ReadByte() (byte, error) \x7d
type ByteScanner interface \x7b ByteReader; UnreadByte() error \x7d
type ByteWriter interface \x7b WriteByte(c byte) error \x7d
type RuneReader interface \x7b ReadRune() (r rune, size int, err error) \x7d
type RuneScanner interface \x7b RuneReader; UnreadRune() error \x7d
type StringWriter interface \x7b WriteString(s string) (n int, err error) \x7d
type LimitedReader struct \x7b R Reader; N int64 \x7d
func (l *LimitedReader) Read(p []byte) (n int, err error)
type SectionReader struct \x7b r ReaderAt; base, off, limit, n int64 \x7d
func (s *SectionReader) Read(p []byte) (n int, err error)
func (s *SectionReader) Seek(offset int64, whence int) (int64, error)
func (s *SectionReader) ReadAt(p []byte, off int64) (n int, err error)
func (s *SectionReader) Size() int64
func (s *SectionReader) Outer() (r ReaderAt, off int64, n int64)
type OffsetWriter struct \x7b w WriterAt; base, off int64 \x7d
func (o *OffsetWriter) Seek(offset int64, whence int) (int64, error)
func (o *OffsetWriter) Write(p []byte) (n int, err error)
func (o *OffsetWriter) WriteAt(p []byte, off int64) (n int, err error)
type pipe struct \x7b wrCh chan []byte; rdCh chan int; done chan struct\x7b\x7d \x7d
func (p *pipe) closeRead(err error) error
func (p *pipe) closeWrite(err error) error
func (p *pipe) read(b []byte) (n int, err error)
func (p *pipe) write(b []byte) (n int, err error)
type PipeReader struct \x7b pipe \x7d
func (r *PipeReader) Read(data []byte) (n int, err error)
func (r *PipeReader) Close() error
func (r *PipeReader) CloseWithError(err error) error
type PipeWriter struct \x7b r PipeReader \x7d
func (w *PipeWriter) Write(data []byte) (n int, err error)
func (w *PipeWriter) Close() error
func (w *PipeWriter) CloseWithError(err error) error
func Copy(dst Writer, src Reader) (written int64, err error)
func CopyBuffer(dst Writer, src Reader, buf []byte) (written int64, err error)
func CopyN(dst Writer, src Reader, n int64) (written int64, err error)
func LimitReader(r Reader, n int64) Reader
func MultiReader(readers ...Reader) Reader
func MultiWriter(writers ...Writer) Writer
func NewOffsetWriter(w WriterAt, off int64) *OffsetWriter
func NewSectionReader(r ReaderAt, off int64, n int64) *SectionReader
func NopCloser(r Reader) ReadCloser
func Pipe() (*PipeReader, *PipeWriter)
func ReadAll(r Reader) ([]byte, error)
func ReadAtLeast(r Reader, buf []byte, min int) (n int, err error)
func ReadFull(r Reader, buf []byte) (n int, err error)
func TeeReader(r Reader, w Writer) Reader
func WriteString(w Writer, s string) (n int, err error)
var errInvalidWrite error
var errOffset error
var errWhence error
type discard struct\x7b\x7d
type eofReader struct\x7b\x7d
type multiReader struct \x7b readers []Reader \x7d
type multiWriter struct \x7b writers []Writer \x7d
type nopCloser struct \x7b Reader \x7d
type nopCloserWriterTo struct \x7b Reader \x7d
type teeReader struct \x7b r Reader; w Writer \x7d
func copyBuffer(dst Writer, src Reader, buf []byte) (written int64, err error)
"

def ioFsPackage : Package where
  path := "io/fs"
  name := "fs"
  declarations := "import (
\t\"time\"
)
var (
\tErrInvalid error
\tErrPermission error
\tErrExist error
\tErrNotExist error
\tErrClosed error
\tSkipAll error
\tSkipDir error
)
type FileMode uint32
const (
\tModeDir FileMode = 1 << (32 - 1 - iota)
\tModeAppend
\tModeExclusive
\tModeTemporary
\tModeSymlink
\tModeDevice
\tModeNamedPipe
\tModeSocket
\tModeSetuid
\tModeSetgid
\tModeCharDevice
\tModeSticky
\tModeIrregular
\tModeType = ModeDir | ModeSymlink | ModeNamedPipe | ModeSocket | ModeDevice | ModeCharDevice | ModeIrregular
\tModePerm FileMode = 0777
)
func (m FileMode) IsDir() bool
func (m FileMode) IsRegular() bool
func (m FileMode) Perm() FileMode
func (m FileMode) String() string
func (m FileMode) Type() FileMode
type FileInfo interface \x7b
\tName() string
\tSize() int64
\tMode() FileMode
\tModTime() time.Time
\tIsDir() bool
\tSys() any
\x7d
type DirEntry interface \x7b
\tName() string
\tIsDir() bool
\tType() FileMode
\tInfo() (FileInfo, error)
\x7d
type File interface \x7b
\tStat() (FileInfo, error)
\tRead([]byte) (int, error)
\tClose() error
\x7d
type FS interface \x7b Open(name string) (File, error) \x7d
type PathError struct \x7b Op string; Path string; Err error \x7d
func (e *PathError) Error() string
func (e *PathError) Timeout() bool
func (e *PathError) Unwrap() error
type WalkDirFunc func(path string, d DirEntry, err error) error
func Glob(fsys FS, pattern string) (matches []string, err error)
func ReadDir(fsys FS, name string) ([]DirEntry, error)
func ReadFile(fsys FS, name string) ([]byte, error)
func Stat(fsys FS, name string) (FileInfo, error)
func Sub(fsys FS, dir string) (FS, error)
func ValidPath(name string) bool
func WalkDir(fsys FS, root string, fn WalkDirFunc) error
"

def syscallPackage : Package where
  path := "syscall"
  name := "syscall"
  declarations := "type Errno uintptr
func (e Errno) Error() string
func (e Errno) Is(target error) bool
func (e Errno) Temporary() bool
func (e Errno) Timeout() bool
type Signal int
func (s Signal) Signal()
func (s Signal) String() string
const (
\tSIGHUP = Signal(0x1)
\tSIGINT = Signal(0x2)
\tSIGQUIT = Signal(0x3)
\tSIGKILL = Signal(0x9)
\tSIGTERM = Signal(0xf)
)
type RawConn interface \x7b
\tControl(f func(fd uintptr)) error
\tRead(f func(fd uintptr) (done bool)) error
\tWrite(f func(fd uintptr) (done bool)) error
\x7d
type Conn interface \x7b SyscallConn() (RawConn, error) \x7d
type SysProcAttr struct \x7b Chroot string; Setsid bool; Setpgid bool; Pgid int \x7d
type Rusage struct \x7b Maxrss int64 \x7d
type WaitStatus uint32
"

def osPackage : Package where
  path := "os"
  name := "os"
  declarations := "import (
\t\"io\"
\t\"io/fs\"
\t\"syscall\"
\t\"time\"
)
const (
\tO_RDONLY int = 0x0
\tO_WRONLY int = 0x1
\tO_RDWR int = 0x2
\tO_APPEND int = 0x400
\tO_CREATE int = 0x40
\tO_EXCL int = 0x80
\tO_SYNC int = 0x101000
\tO_TRUNC int = 0x200
)
const (
\tSEEK_SET int = 0
\tSEEK_CUR int = 1
\tSEEK_END int = 2
)
const (
\tPathSeparator = '/'
\tPathListSeparator = ':'
\tDevNull = \"/dev/null\"
)
const (
\tModeDir = fs.ModeDir
\tModeAppend = fs.ModeAppend
\tModeExclusive = fs.ModeExclusive
\tModeTemporary = fs.ModeTemporary
\tModeSymlink = fs.ModeSymlink
\tModeDevice = fs.ModeDevice
\tModeNamedPipe = fs.ModeNamedPipe
\tModeSocket = fs.ModeSocket
\tModeSetuid = fs.ModeSetuid
\tModeSetgid = fs.ModeSetgid
\tModeCharDevice = fs.ModeCharDevice
\tModeSticky = fs.ModeSticky
\tModeIrregular = fs.ModeIrregular
\tModeType = fs.ModeType
\tModePerm = fs.ModePerm
)
type PathError = fs.PathError
type FileInfo = fs.FileInfo
type FileMode = fs.FileMode
type DirEntry = fs.DirEntry
type Signal interface \x7b String() string; Signal() \x7d
type File struct \x7b *file \x7d
type file struct \x7b name string; nonblock, stdoutOrErr, appendMode, inRoot bool \x7d
type Process struct \x7b Pid int; handle int \x7d
type ProcAttr struct \x7b Dir string; Env []string; Files []*File; Sys *syscall.SysProcAttr \x7d
type ProcessState struct \x7b pid int; status syscall.WaitStatus; rusage *syscall.Rusage \x7d
type Root struct \x7b root *root \x7d
type root struct \x7b name string \x7d
type LinkError struct \x7b Op string; Old string; New string; Err error \x7d
func (e *LinkError) Error() string
func (e *LinkError) Unwrap() error
type SyscallError struct \x7b Syscall string; Err error \x7d
func (e *SyscallError) Error() string
func (e *SyscallError) Timeout() bool
func (e *SyscallError) Unwrap() error
var (
\tErrInvalid = fs.ErrInvalid
\tErrPermission = fs.ErrPermission
\tErrExist = fs.ErrExist
\tErrNotExist = fs.ErrNotExist
\tErrClosed = fs.ErrClosed
\tErrNoDeadline error
\tErrDeadlineExceeded error
\tErrProcessDone error
\tErrNoHandle error
)
var (
\tStdin = NewFile(0, \"\")
\tStdout = NewFile(1, \"\")
\tStderr = NewFile(2, \"\")
)
var (
\tInterrupt Signal = syscall.SIGINT
\tKill Signal = syscall.SIGKILL
)
var Args []string
func (f *File) Chdir() error
func (f *File) Chmod(mode FileMode) error
func (f *File) Chown(uid, gid int) error
func (f *File) Close() error
func (f *File) Fd() uintptr
func (f *File) Name() string
func (f *File) Read(b []byte) (n int, err error)
func (f *File) ReadAt(b []byte, off int64) (n int, err error)
func (f *File) ReadDir(n int) ([]DirEntry, error)
func (f *File) ReadFrom(r io.Reader) (n int64, err error)
func (f *File) Readdir(n int) ([]FileInfo, error)
func (f *File) Readdirnames(n int) (names []string, err error)
func (f *File) Seek(offset int64, whence int) (ret int64, err error)
func (f *File) SetDeadline(t time.Time) error
func (f *File) SetReadDeadline(t time.Time) error
func (f *File) SetWriteDeadline(t time.Time) error
func (f *File) Stat() (FileInfo, error)
func (f *File) Sync() error
func (f *File) SyscallConn() (syscall.RawConn, error)
func (f *File) Truncate(size int64) error
func (f *File) Write(b []byte) (n int, err error)
func (f *File) WriteAt(b []byte, off int64) (n int, err error)
func (f *File) WriteString(s string) (n int, err error)
func (f *File) WriteTo(w io.Writer) (n int64, err error)
func (p *Process) Kill() error
func (p *Process) Release() error
func (p *Process) Signal(sig Signal) error
func (p *Process) Wait() (*ProcessState, error)
func (p *Process) WithHandle(f func(handle uintptr)) error
func Chdir(dir string) error
func Chmod(name string, mode FileMode) error
func Chown(name string, uid, gid int) error
func Chtimes(name string, atime time.Time, mtime time.Time) error
func Clearenv()
func CopyFS(dir string, fsys fs.FS) error
func Create(name string) (*File, error)
func CreateTemp(dir, pattern string) (*File, error)
func DirFS(dir string) fs.FS
func Environ() []string
func Executable() (string, error)
func Exit(code int)
func Expand(s string, mapping func(string) string) string
func ExpandEnv(s string) string
func FindProcess(pid int) (*Process, error)
func Getegid() int
func Getenv(key string) string
func Geteuid() int
func Getgid() int
func Getgroups() ([]int, error)
func Getpagesize() int
func Getpid() int
func Getppid() int
func Getuid() int
func Getwd() (dir string, err error)
func Hostname() (name string, err error)
func IsExist(err error) bool
func IsNotExist(err error) bool
func IsPathSeparator(c uint8) bool
func IsPermission(err error) bool
func IsTimeout(err error) bool
func Lchown(name string, uid, gid int) error
func Link(oldname, newname string) error
func LookupEnv(key string) (string, bool)
func Lstat(name string) (FileInfo, error)
func Mkdir(name string, perm FileMode) error
func MkdirAll(path string, perm FileMode) error
func MkdirTemp(dir, pattern string) (string, error)
func NewFile(fd uintptr, name string) *File
func NewSyscallError(syscall string, err error) error
func Open(name string) (*File, error)
func OpenFile(name string, flag int, perm FileMode) (*File, error)
func OpenInRoot(dir, name string) (*File, error)
func OpenRoot(name string) (*Root, error)
func Pipe() (r *File, w *File, err error)
func ReadDir(name string) ([]DirEntry, error)
func ReadFile(name string) ([]byte, error)
func Readlink(name string) (string, error)
func Remove(name string) error
func RemoveAll(path string) error
func Rename(oldpath, newpath string) error
func SameFile(fi1, fi2 FileInfo) bool
func Setenv(key, value string) error
func StartProcess(name string, argv []string, attr *ProcAttr) (*Process, error)
func Stat(name string) (FileInfo, error)
func Symlink(oldname, newname string) error
func TempDir() string
func Truncate(name string, size int64) error
func Unsetenv(key string) error
func UserCacheDir() (string, error)
func UserConfigDir() (string, error)
func UserHomeDir() (string, error)
func WriteFile(name string, data []byte, perm FileMode) error
func (p *ProcessState) ExitCode() int
func (p *ProcessState) Exited() bool
func (p *ProcessState) Pid() int
func (p *ProcessState) String() string
func (p *ProcessState) Success() bool
func (p *ProcessState) Sys() any
func (p *ProcessState) SysUsage() any
func (p *ProcessState) SystemTime() time.Duration
func (p *ProcessState) UserTime() time.Duration
func (r *Root) Chmod(name string, mode FileMode) error
func (r *Root) Chown(name string, uid, gid int) error
func (r *Root) Chtimes(name string, atime time.Time, mtime time.Time) error
func (r *Root) Close() error
func (r *Root) Create(name string) (*File, error)
func (r *Root) FS() fs.FS
func (r *Root) Lchown(name string, uid, gid int) error
func (r *Root) Link(oldname, newname string) error
func (r *Root) Lstat(name string) (FileInfo, error)
func (r *Root) Mkdir(name string, perm FileMode) error
func (r *Root) MkdirAll(name string, perm FileMode) error
func (r *Root) Name() string
func (r *Root) Open(name string) (*File, error)
func (r *Root) OpenFile(name string, flag int, perm FileMode) (*File, error)
func (r *Root) OpenRoot(name string) (*Root, error)
func (r *Root) ReadFile(name string) ([]byte, error)
func (r *Root) Readlink(name string) (string, error)
func (r *Root) Remove(name string) error
func (r *Root) RemoveAll(name string) error
func (r *Root) Rename(oldname, newname string) error
func (r *Root) Stat(name string) (FileInfo, error)
func (r *Root) Symlink(oldname, newname string) error
func (r *Root) WriteFile(name string, data []byte, perm FileMode) error
"

def bufioPackage : Package where
  path := "bufio"
  name := "bufio"
  declarations := "import (
\t\"io\"
)
const (
\tMaxScanTokenSize = 64 * 1024
\tdefaultBufSize = 4096
\tmaxConsecutiveEmptyReads = 100
\tminReadBufferSize = 16
\tstartBufSize = 4096
)
var (
\tErrInvalidUnreadByte error
\tErrInvalidUnreadRune error
\tErrBufferFull error
\tErrNegativeCount error
\tErrTooLong error
\tErrNegativeAdvance error
\tErrAdvanceTooFar error
\tErrBadReadCount error
\tErrFinalToken error
\terrNegativeRead error
\terrNegativeWrite error
)
type Reader struct \x7b buf []byte; rd io.Reader; r, w int; err error; lastByte int; lastRuneSize int \x7d
func NewReader(rd io.Reader) *Reader
func NewReaderSize(rd io.Reader, size int) *Reader
func (b *Reader) Buffered() int
func (b *Reader) Discard(n int) (discarded int, err error)
func (b *Reader) Peek(n int) ([]byte, error)
func (b *Reader) Read(p []byte) (n int, err error)
func (b *Reader) ReadByte() (byte, error)
func (b *Reader) ReadBytes(delim byte) ([]byte, error)
func (b *Reader) ReadLine() (line []byte, isPrefix bool, err error)
func (b *Reader) ReadRune() (r rune, size int, err error)
func (b *Reader) ReadSlice(delim byte) (line []byte, err error)
func (b *Reader) ReadString(delim byte) (string, error)
func (b *Reader) Reset(r io.Reader)
func (b *Reader) Size() int
func (b *Reader) UnreadByte() error
func (b *Reader) UnreadRune() error
func (b *Reader) WriteTo(w io.Writer) (n int64, err error)
type Writer struct \x7b err error; buf []byte; n int; wr io.Writer \x7d
func NewWriter(w io.Writer) *Writer
func NewWriterSize(w io.Writer, size int) *Writer
func (b *Writer) Available() int
func (b *Writer) AvailableBuffer() []byte
func (b *Writer) Buffered() int
func (b *Writer) Flush() error
func (b *Writer) ReadFrom(r io.Reader) (n int64, err error)
func (b *Writer) Reset(w io.Writer)
func (b *Writer) Size() int
func (b *Writer) Write(p []byte) (nn int, err error)
func (b *Writer) WriteByte(c byte) error
func (b *Writer) WriteRune(r rune) (size int, err error)
func (b *Writer) WriteString(s string) (int, error)
type ReadWriter struct \x7b *Reader; *Writer \x7d
func NewReadWriter(r *Reader, w *Writer) *ReadWriter
type SplitFunc func(data []byte, atEOF bool) (advance int, token []byte, err error)
type Scanner struct \x7b
\tr io.Reader
\tsplit SplitFunc
\tmaxTokenSize int
\ttoken, buf []byte
\tstart, end int
\terr error
\tempties int
\tscanCalled, done bool
\x7d
func NewScanner(r io.Reader) *Scanner
func (s *Scanner) Buffer(buf []byte, max int)
func (s *Scanner) Bytes() []byte
func (s *Scanner) Err() error
func (s *Scanner) Scan() bool
func (s *Scanner) Split(split SplitFunc)
func (s *Scanner) Text() string
func ScanBytes(data []byte, atEOF bool) (advance int, token []byte, err error)
func ScanLines(data []byte, atEOF bool) (advance int, token []byte, err error)
func ScanRunes(data []byte, atEOF bool) (advance int, token []byte, err error)
func ScanWords(data []byte, atEOF bool) (advance int, token []byte, err error)
func (b *Reader) fill()
func (b *Reader) readErr() error
func (b *Reader) reset(buf []byte, r io.Reader)
func (s *Scanner) advance(n int) bool
func (s *Scanner) setErr(err error)
func dropCR(data []byte) []byte
func isSpace(r rune) bool
"

def logPackage : Package where
  path := "log"
  name := "log"
  declarations := "import \"io\"
const (
\tLdate = 1 << iota
\tLtime
\tLmicroseconds
\tLlongfile
\tLshortfile
\tLUTC
\tLmsgprefix
\tLstdFlags = Ldate | Ltime
)
type Logger struct \x7b prefix string \x7d
func Default() *Logger
func New(out io.Writer, prefix string, flag int) *Logger
func (l *Logger) Fatal(v ...any)
func (l *Logger) Fatalf(format string, v ...any)
func (l *Logger) Fatalln(v ...any)
func (l *Logger) Flags() int
func (l *Logger) Output(calldepth int, s string) error
func (l *Logger) Panic(v ...any)
func (l *Logger) Panicf(format string, v ...any)
func (l *Logger) Prefix() string
func (l *Logger) Print(v ...any)
func (l *Logger) Printf(format string, v ...any)
func (l *Logger) Println(v ...any)
func (l *Logger) SetFlags(flag int)
func (l *Logger) SetOutput(w io.Writer)
func (l *Logger) SetPrefix(prefix string)
func (l *Logger) Writer() io.Writer
func Fatal(v ...any)
func Fatalf(format string, v ...any)
func Fatalln(v ...any)
func Flags() int
func Panic(v ...any)
func Panicf(format string, v ...any)
func Panicln(v ...any)
func Prefix() string
func Print(v ...any)
func Printf(format string, v ...any)
func Println(v ...any)
func SetFlags(flag int)
func SetOutput(w io.Writer)
func SetPrefix(prefix string)
func Writer() io.Writer
"

def pathPackage : Package where
  path := "path"
  name := "path"
  declarations := "var ErrBadPattern error
func Base(path string) string
func Clean(path string) string
func Dir(path string) string
func Ext(path string) string
func IsAbs(path string) bool
func Join(elem ...string) string
func Match(pattern, name string) (matched bool, err error)
func Split(path string) (dir, file string)
"

def pathFilepathPackage : Package where
  path := "path/filepath"
  name := "filepath"
  declarations := "import (
\t\"io/fs\"
)
const (
\tSeparator = '/'
\tListSeparator = ':'
)
var ErrBadPattern error
var SkipAll error = fs.SkipAll
var SkipDir error = fs.SkipDir
type WalkFunc func(path string, info fs.FileInfo, err error) error
func Abs(path string) (string, error)
func Base(path string) string
func Clean(path string) string
func Dir(path string) string
func EvalSymlinks(path string) (string, error)
func Ext(path string) string
func FromSlash(path string) string
func Glob(pattern string) (matches []string, err error)
func IsAbs(path string) bool
func IsLocal(path string) bool
func Join(elem ...string) string
func Match(pattern, name string) (matched bool, err error)
func Rel(basePath, targPath string) (string, error)
func Split(path string) (dir, file string)
func SplitList(path string) []string
func ToSlash(path string) string
func VolumeName(path string) string
func Walk(root string, fn WalkFunc) error
func WalkDir(root string, fn fs.WalkDirFunc) error
"

def contextPackage : Package where
  path := "context"
  name := "context"
  declarations := "import (
\t\"time\"
)
var Canceled error
var DeadlineExceeded error = nil
type Context interface \x7b
\tDeadline() (deadline time.Time, ok bool)
\tDone() <-chan struct\x7b\x7d
\tErr() error
\tValue(key any) any
\x7d
type CancelFunc func()
type CancelCauseFunc func(cause error)
func AfterFunc(ctx Context, f func()) (stop func() bool)
func Background() Context
func Cause(c Context) error
func TODO() Context
func WithCancel(parent Context) (ctx Context, cancel CancelFunc)
func WithCancelCause(parent Context) (ctx Context, cancel CancelCauseFunc)
func WithDeadline(parent Context, d time.Time) (Context, CancelFunc)
func WithTimeout(parent Context, timeout time.Duration) (Context, CancelFunc)
func WithValue(parent Context, key, val any) Context
func WithoutCancel(parent Context) Context
"

def timePackage : Package where
  path := "time"
  name := "time"
  declarations := "type Duration int64
const (
\tNanosecond  Duration = 1
\tMicrosecond          = 1000 * Nanosecond
\tMillisecond          = 1000 * Microsecond
\tSecond               = 1000 * Millisecond
\tMinute               = 60 * Second
\tHour                 = 60 * Minute
)
const (
\tLayout = \"01/02 03:04:05PM '06 -0700\"
\tANSIC = \"Mon Jan _2 15:04:05 2006\"
\tUnixDate = \"Mon Jan _2 15:04:05 MST 2006\"
\tRubyDate = \"Mon Jan 02 15:04:05 -0700 2006\"
\tRFC822 = \"02 Jan 06 15:04 MST\"
\tRFC822Z = \"02 Jan 06 15:04 -0700\"
\tRFC850 = \"Monday, 02-Jan-06 15:04:05 MST\"
\tRFC1123 = \"Mon, 02 Jan 2006 15:04:05 MST\"
\tRFC1123Z = \"Mon, 02 Jan 2006 15:04:05 -0700\"
\tRFC3339 = \"2006-01-02T15:04:05Z07:00\"
\tRFC3339Nano = \"2006-01-02T15:04:05.999999999Z07:00\"
\tKitchen = \"3:04PM\"
\tStamp = \"Jan _2 15:04:05\"
\tStampMilli = \"Jan _2 15:04:05.000\"
\tStampMicro = \"Jan _2 15:04:05.000000\"
\tStampNano = \"Jan _2 15:04:05.000000000\"
\tDateTime = \"2006-01-02 15:04:05\"
\tDateOnly = \"2006-01-02\"
\tTimeOnly = \"15:04:05\"
)
type Month int
const (
\tJanuary Month = 1 + iota
\tFebruary
\tMarch
\tApril
\tMay
\tJune
\tJuly
\tAugust
\tSeptember
\tOctober
\tNovember
\tDecember
)
type Weekday int
const (
\tSunday Weekday = iota
\tMonday
\tTuesday
\tWednesday
\tThursday
\tFriday
\tSaturday
)
func (m Month) String() string
func (d Weekday) String() string
func (d Duration) Abs() Duration
func (d Duration) Hours() float64
func (d Duration) Microseconds() int64
func (d Duration) Milliseconds() int64
func (d Duration) Minutes() float64
func (d Duration) Nanoseconds() int64
func (d Duration) Round(m Duration) Duration
func (d Duration) Seconds() float64
func (d Duration) String() string
func (d Duration) Truncate(m Duration) Duration
type Location struct \x7b
\tname string
\tzone []zone
\ttx []zoneTrans
\textend string
\tcacheStart, cacheEnd int64
\tcacheZone *zone
\x7d
func (l *Location) String() string
var UTC *Location = nil
var Local *Location = nil
type ParseError struct \x7b
\tLayout string
\tValue string
\tLayoutElem string
\tValueElem string
\tMessage string
\x7d
func (e *ParseError) Error() string
type Time struct \x7b wall uint64; ext int64; loc *Location \x7d
func (t Time) Add(d Duration) Time
func (t Time) AddDate(years int, months int, days int) Time
func (t Time) After(u Time) bool
func (t Time) AppendBinary(b []byte) ([]byte, error)
func (t Time) AppendFormat(b []byte, layout string) []byte
func (t Time) AppendText(b []byte) ([]byte, error)
func (t Time) Before(u Time) bool
func (t Time) Clock() (hour, min, sec int)
func (t Time) Compare(u Time) int
func (t Time) Date() (year int, month Month, day int)
func (t Time) Day() int
func (t Time) Equal(u Time) bool
func (t Time) Format(layout string) string
func (t Time) GoString() string
func (t *Time) GobDecode(data []byte) error
func (t Time) GobEncode() ([]byte, error)
func (t Time) Hour() int
func (t Time) ISOWeek() (year, week int)
func (t Time) In(loc *Location) Time
func (t Time) IsDST() bool
func (t Time) IsZero() bool
func (t Time) Local() Time
func (t Time) Location() *Location
func (t Time) MarshalBinary() ([]byte, error)
func (t Time) MarshalJSON() ([]byte, error)
func (t Time) MarshalText() ([]byte, error)
func (t Time) Minute() int
func (t Time) Month() Month
func (t Time) Nanosecond() int
func (t Time) Round(d Duration) Time
func (t Time) Second() int
func (t Time) String() string
func (t Time) Sub(u Time) Duration
func (t Time) Truncate(d Duration) Time
func (t Time) UTC() Time
func (t Time) Unix() int64
func (t Time) UnixMicro() int64
func (t Time) UnixMilli() int64
func (t Time) UnixNano() int64
func (t *Time) UnmarshalBinary(data []byte) error
func (t *Time) UnmarshalJSON(data []byte) error
func (t *Time) UnmarshalText(data []byte) error
func (t Time) Weekday() Weekday
func (t Time) Year() int
func (t Time) YearDay() int
func (t Time) Zone() (name string, offset int)
func (t Time) ZoneBounds() (start, end Time)
type Timer struct \x7b C <-chan Time; initTimer bool \x7d
func (t *Timer) Reset(d Duration) bool
func (t *Timer) Stop() bool
type Ticker struct \x7b C <-chan Time; initTicker bool \x7d
func (t *Ticker) Reset(d Duration)
func (t *Ticker) Stop()
func After(d Duration) <-chan Time
func AfterFunc(d Duration, f func()) *Timer
func Date(year int, month Month, day, hour, min, sec, nsec int, loc *Location) Time
func FixedZone(name string, offset int) *Location
func LoadLocation(name string) (*Location, error)
func LoadLocationFromTZData(name string, data []byte) (*Location, error)
func NewTicker(d Duration) *Ticker
func NewTimer(d Duration) *Timer
func Now() Time
func Parse(layout, value string) (Time, error)
func ParseDuration(s string) (Duration, error)
func ParseInLocation(layout, value string, loc *Location) (Time, error)
func Since(t Time) Duration
func Sleep(d Duration)
func Tick(d Duration) <-chan Time
func Unix(sec int64, nsec int64) Time
func UnixMicro(usec int64) Time
func UnixMilli(msec int64) Time
func Until(t Time) Duration
func (t *Time) addSec(d int64)
func (t *Time) mono() int64
func (t *Time) nsec() int32
func (t *Time) sec() int64
func (t *Time) setLoc(loc *Location)
func (t *Time) setMono(m int64)
func (t *Time) stripMono()
func (t *Time) unixSec() int64
func (l *Location) get() *Location
func daysBefore(m Month) int
func daysIn(m Month, year int) int
func isLeap(year int) bool
func leadingInt[bytes []byte | string](s bytes) (x uint64, rem bytes, err error)
func norm(hi, lo, base int) (nhi, nlo int)
func now() (sec int64, nsec int32, mono int64)
func parse(layout, value string, defaultLocation, local *Location) (Time, error)
func quote(s string) string
func runtimeNano() int64
func unixTime(sec int64, nsec int32) Time
func when(d Duration) int64
type zone struct \x7b name string; offset int; isDST bool \x7d
type zoneTrans struct \x7b when int64; index uint8; isstd, isutc bool \x7d
var localLoc Location
var utcLoc Location
"

/-- Declarations of the known packages for input, output and time. -/
def systemPackages : List Package :=
  [fmtPackage, ioPackage, ioFsPackage, syscallPackage, osPackage, bufioPackage, logPackage,
   pathPackage, pathFilepathPackage, contextPackage, timePackage]

end Desugar.Typing.Library
